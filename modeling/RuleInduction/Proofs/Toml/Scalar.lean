import RuleInduction.Proofs.Decimal.Positional
import RuleInduction.Toml.Document

namespace RuleInduction.Toml

open Decimal Numeral

variable {cs text whole fraction rest : List Char} {v : Toml}

def Reads (text : List Char) (v : Toml) : Prop :=
  ∀ rest, value? depthLimit (skipWs (text ++ '\n' :: rest)) = some (v, '\n' :: rest)

def Word (cs : List Char) : Prop :=
  cs ≠ [] ∧ ∀ c ∈ cs, isWordChar c = true

theorem isWs_of_isWordChar {c : Char} (h : isWordChar c = true) : isWs c = false := by
  refine Bool.eq_false_iff.2 fun hws => ?_
  simp only [isWs, Bool.or_eq_true, decide_eq_true_eq] at hws
  rcases hws with rfl | rfl <;> cases h

theorem word_of_word (h : Word text) (rest : List Char) :
    word (text ++ '\n' :: rest) = (text, '\n' :: rest) := by
  have hend : ∀ c ∈ ('\n' :: rest).head?, isWordChar c = false := Line.forall_head?_cons rfl
  simp only [word, Line.takeWhile_exact h.2 hend, Line.dropWhile_exact h.2 hend]
  rfl

theorem value?_of_word (h : Word text) (rest : List Char) :
    value? depthLimit (text ++ '\n' :: rest) = (scalar? text).map fun v => (v, '\n' :: rest) := by
  have hword := word_of_word h rest
  cases text with
  | nil => exact absurd rfl h.1
  | cons c text =>
      have hc : isWordChar c = true := h.2 c List.mem_cons_self
      rw [List.cons_append] at hword ⊢
      rw [value?]
      · rw [hword]
      -- The other readers of values begin with a bracket, a brace or a quote.
      all_goals
        intros
        rename_i hopening
        cases hopening
        cases hc

theorem reads_of_word (h : Word text) (hv : scalar? text = some v) : Reads text v := by
  intro rest
  have hstart : skipWs (text ++ '\n' :: rest) = text ++ '\n' :: rest := by
    cases text with
    | nil => exact absurd rfl h.1
    | cons c text =>
        have hc := isWs_of_isWordChar (h.2 c List.mem_cons_self)
        rw [skipWs, List.cons_append, List.dropWhile_cons, hc, if_neg Bool.false_ne_true]
  rw [hstart, value?_of_word h, hv, Option.map_some]

theorem skip?_eq_none {c : Char} (h : c ∉ cs) : skip? c cs = none := by
  cases cs with
  | nil => rfl
  | cons d cs => exact if_neg fun hd : d = c => h (hd ▸ List.mem_cons_self)

theorem fixed?_snd {places n : Nat} (h : fixed? places cs = some (n, rest)) :
    rest = cs.drop places := by
  simp only [fixed?] at h
  split at h <;> cases h
  rfl

-- A date has a stroke behind its year, and a time a colon behind its hour.
theorem isMoment_eq_false (hdate : '-' ∉ cs.drop 4) (htime : ':' ∉ cs.drop 2) :
    isMoment cs = false := by
  have hdate : date? cs = none := by
    rw [date?]
    cases hyear : fixed? 4 cs with
    | none => rfl
    | some year =>
        have hrest : year.2 = cs.drop 4 := fixed?_snd hyear
        simp only [Option.bind_eq_bind, Option.bind_some, hrest, skip?_eq_none hdate,
          Option.bind_none]
  have htime : time? cs = none := by
    rw [time?]
    cases hhour : fixed? 2 cs with
    | none => rfl
    | some hour =>
        have hrest : hour.2 = cs.drop 2 := fixed?_snd hhour
        simp only [Option.bind_eq_bind, Option.bind_some, hrest, skip?_eq_none htime,
          Option.bind_none]
  rw [isMoment, hdate, htime]
  rfl

theorem grouped?_digits (hne : cs ≠ []) (h : Digits cs) : grouped? Char.isDigit cs = some cs := by
  induction cs with
  | nil => exact absurd rfl hne
  | cons c cs ih =>
      have hc : c.isDigit = true := h c List.mem_cons_self
      cases cs with
      | nil => rw [grouped?, if_pos hc]
      | cons d cs =>
          have hd : d.isDigit = true := h d (by simp)
          have hrest := ih (List.cons_ne_nil d cs) fun e he => h e (List.mem_cons_of_mem _ he)
          rw [grouped?, if_pos hc, hrest]
          · rfl
          · exact List.cons_ne_nil d cs
          · rintro rest heq
            cases heq
            cases hd

theorem wholeDigits?_leading (h : Leading cs) : wholeDigits? cs = some cs := by
  rw [wholeDigits?, grouped?_digits h.ne_nil h.digits]
  split
  · next heq => cases heq; rfl
  · next hne heq =>
      cases heq
      exact absurd (List.cons.inj (h.zero rfl)).2 hne
  · rfl

def Radixless (cs : List Char) : Prop :=
  ∀ c ∈ cs.tail.head?, c ≠ 'x' ∧ c ≠ 'o' ∧ c ≠ 'b'

theorem integer?_radixless (h : Radixless cs) : integer? cs =
    (wholeDigits? (sign cs).2).bind fun ds =>
      let n := signed (sign cs).1 (Nat.ofDigitChars 10 ds 0)
      if inRange n then some n else none := by
  unfold integer?
  split
  · exact absurd rfl (h 'x' rfl).1
  · exact absurd rfl (h 'o' rfl).2.1
  · exact absurd rfl (h 'b' rfl).2.2
  · cases sign cs with
    | mk negative digits =>
        dsimp only
        cases wholeDigits? digits <;> rfl

theorem not_mem_digits {c : Char} (h : Digits cs) (hc : c.isDigit = false) : c ∉ cs :=
  fun hmem => Bool.false_ne_true (hc.symm.trans (h c hmem))

theorem isWordChar_of_isDigit {c : Char} (h : c.isDigit = true) : isWordChar c = true := by
  simp [isWordChar, Char.isAlphanum, h]

theorem scalar?_number (hhead : ∀ c ∈ cs.head?, c ≠ 't' ∧ c ≠ 'f') (hmoment : isMoment cs = false) :
    scalar? cs = match integer? cs with
      | some n => some (.integer n)
      | none => (float? cs).map .float := by
  have htrue : cs ≠ ['t', 'r', 'u', 'e'] := fun heq => (hhead 't' (heq ▸ rfl)).1 rfl
  have hfalse : cs ≠ ['f', 'a', 'l', 's', 'e'] := fun heq => (hhead 'f' (heq ▸ rfl)).2 rfl
  have hscalar := scalar?.eq_def cs
  rw [if_neg htrue, if_neg hfalse, hmoment, if_neg Bool.false_ne_true] at hscalar
  exact hscalar

theorem reads_integer {n : ℕ} (h : n < 2 ^ 63) : Reads (Nat.repr n).toList (.integer n) := by
  rw [Nat.toList_repr]
  have hleading := leading_toDigits n
  have hdigits := hleading.digits
  have hsign : sign (Nat.toDigits 10 n) = (false, Nat.toDigits 10 n) := by
    refine sign_absent fun c hc => not_sign_of_isDigit (hdigits c (List.mem_of_mem_head? hc))
  refine reads_of_word ⟨hleading.ne_nil, fun c hc => isWordChar_of_isDigit (hdigits c hc)⟩ ?_
  have hmoment : isMoment (Nat.toDigits 10 n) = false :=
    isMoment_eq_false (fun hc => not_mem_digits hdigits rfl (List.mem_of_mem_drop hc))
      fun hc => not_mem_digits hdigits rfl (List.mem_of_mem_drop hc)
  have hradix : Radixless (Nat.toDigits 10 n) := by
    intro c hc
    have hdigit := hdigits c (List.mem_of_mem_tail (List.mem_of_mem_head? hc))
    refine ⟨?_, ?_, ?_⟩ <;> rintro rfl <;> cases hdigit
  have hinteger : integer? (Nat.toDigits 10 n) = some (n : ℤ) := by
    have hrange : inRange n = true := by
      simp only [inRange, Bool.and_eq_true, decide_eq_true_eq]
      omega
    rw [integer?_radixless hradix, hsign, wholeDigits?_leading hleading, Option.bind_some,
      Nat.ofDigitChars_ten_toDigits]
    exact if_pos hrange
  have hhead : ∀ c ∈ (Nat.toDigits 10 n).head?, c ≠ 't' ∧ c ≠ 'f' := by
    intro c hc
    have hdigit := hdigits c (List.mem_of_mem_head? hc)
    constructor <;> rintro rfl <;> cases hdigit
  rw [scalar?_number hhead hmoment, hinteger]

variable {x : Float} {body : List Char}

def isFloatChar (c : Char) : Bool :=
  c.isDigit || c = '.' || c = 'i' || c = 'n' || c = 'f'

theorem isFloatChar_of_isDigit {c : Char} (h : c.isDigit = true) : isFloatChar c = true := by
  simp [isFloatChar, h]

theorem ne_of_isFloatChar {c d : Char} (h : isFloatChar c = true) (hd : isFloatChar d = false) :
    c ≠ d := by
  rintro rfl
  exact Bool.false_ne_true (hd.symm.trans h)

theorem isWordChar_of_isFloatChar {c : Char} (h : isFloatChar c = true) : isWordChar c = true := by
  simp only [isFloatChar, Bool.or_eq_true, decide_eq_true_eq] at h
  rcases h with (((hdigit | rfl) | rfl) | rfl) | rfl
  · exact isWordChar_of_isDigit hdigit
  all_goals rfl

structure Magnitude (body : List Char) : Prop where
  chars : ∀ c ∈ body, isFloatChar c = true
  head : body.head? ≠ some 'f'
  other : ∃ c ∈ body, c.isDigit = false

theorem Magnitude.sign_eq (h : Magnitude body) : sign (minus x ++ body) = (isNegative x, body) := by
  refine sign_exact (sign_minus x) fun c hc => ?_
  have hchar := h.chars c (List.mem_of_mem_head? hc)
  exact ⟨ne_of_isFloatChar hchar rfl, ne_of_isFloatChar hchar rfl⟩

theorem minus_cases (x : Float) : minus x = [] ∨ minus x = ['-'] := by
  rw [minus]
  cases isNegative x with
  | true => exact .inr rfl
  | false => exact .inl rfl

theorem Magnitude.tail (h : Magnitude body) : ∀ c ∈ (minus x ++ body).tail, isFloatChar c = true := by
  rcases minus_cases x with hminus | hminus <;> rw [hminus]
  · exact fun c hc => h.chars c (List.mem_of_mem_tail hc)
  · exact h.chars

theorem chars_of_grouped {ds : List Char} (h : grouped? Char.isDigit cs = some ds) :
    ∀ c ∈ cs, c.isDigit = true ∨ c = '_' := by
  fun_induction grouped? Char.isDigit cs generalizing ds with
  | case1 => cases h
  | case2 d hd => exact List.forall_mem_singleton.2 (.inl hd)
  | case3 d hd => cases h
  | case4 d cs hd ih =>
      obtain ⟨rest, hrest, _⟩ := Option.map_eq_some_iff.1 h
      exact List.forall_mem_cons.2 ⟨.inl hd, List.forall_mem_cons.2 ⟨.inr rfl, ih hrest⟩⟩
  | case5 d cs hd => cases h
  | case6 d cs hne hunderscore hd ih =>
      obtain ⟨rest, hrest, _⟩ := Option.map_eq_some_iff.1 h
      exact List.forall_mem_cons.2 ⟨.inl hd, ih hrest⟩
  | case7 d cs hne hunderscore hd => cases h

theorem integer?_eq_none {c : Char} (h : Radixless cs) (hmem : c ∈ (sign cs).2)
    (hc : c.isDigit = false) (hunderscore : c ≠ '_') : integer? cs = none := by
  have hgrouped : grouped? Char.isDigit (sign cs).2 = none := by
    cases hsome : grouped? Char.isDigit (sign cs).2 with
    | none => rfl
    | some ds =>
        rcases chars_of_grouped hsome c hmem with hdigit | rfl
        · cases hc.symm.trans hdigit
        · exact absurd rfl hunderscore
  rw [integer?_radixless h, wholeDigits?, hgrouped]
  rfl

theorem Magnitude.integer?_eq (h : Magnitude body) : integer? (minus x ++ body) = none := by
  have hradix : Radixless (minus x ++ body) := by
    intro c hc
    have hchar := h.tail c (List.mem_of_mem_head? hc)
    exact ⟨ne_of_isFloatChar hchar rfl, ne_of_isFloatChar hchar rfl, ne_of_isFloatChar hchar rfl⟩
  obtain ⟨c, hmem, hc⟩ := h.other
  refine integer?_eq_none hradix (c := c) ?_ hc (ne_of_isFloatChar (h.chars c hmem) rfl)
  rwa [h.sign_eq]

theorem Magnitude.isMoment_eq (h : Magnitude body) : isMoment (minus x ++ body) = false := by
  have hlater {c : Char} {places : ℕ} (hc : isFloatChar c = false) :
      c ∉ (minus x ++ body).drop (places + 1) := by
    rw [← List.drop_tail]
    exact fun hmem => ne_of_isFloatChar (h.tail c (List.mem_of_mem_drop hmem)) hc rfl
  exact isMoment_eq_false (hlater rfl) (hlater rfl)

theorem Magnitude.word (h : Magnitude body) : Word (minus x ++ body) := by
  obtain ⟨c, hmem, _⟩ := h.other
  refine ⟨List.append_ne_nil_of_right_ne_nil _ (List.ne_nil_of_mem hmem), fun d hd => ?_⟩
  rcases List.mem_append.1 hd with hminus | hbody
  · obtain rfl : d = '-' := by
      rcases minus_cases x with heq | heq <;> simp_all
    rfl
  · exact isWordChar_of_isFloatChar (h.chars d hbody)

theorem Magnitude.not_truth (h : Magnitude body) :
    ∀ c ∈ (minus x ++ body).head?, c ≠ 't' ∧ c ≠ 'f' := by
  rcases minus_cases x with hminus | hminus <;> rw [hminus]
  · intro c hc
    refine ⟨ne_of_isFloatChar (h.chars c (List.mem_of_mem_head? hc)) rfl, ?_⟩
    rintro rfl
    exact h.head hc
  · exact Line.forall_head?_cons (by decide)

theorem Magnitude.reads (h : Magnitude body) (hfloat : float? (minus x ++ body) = some x) :
    Reads (minus x ++ body) (.float x) := by
  refine reads_of_word h.word ?_
  rw [scalar?_number h.not_truth h.isMoment_eq, h.integer?_eq, hfloat]
  rfl

theorem reads_infinite (hnan : x.isNaN = false) (hx : x.isFinite = false) :
    Reads (minus x ++ ['i', 'n', 'f']) (.float x) := by
  have hword : Magnitude ['i', 'n', 'f'] := by
    refine ⟨?_, by decide, 'i', List.mem_cons_self, rfl⟩
    simp [isFloatChar]
  refine hword.reads ?_
  have hbits : unsigned x = Binary64.infinityBits :=
    (unsigned_eq_infinityBits_iff hnan).2 (Bool.eq_false_iff.1 hx)
  rw [float?, hword.sign_eq]
  dsimp only
  rw [if_pos rfl, ← hbits, toFloat_unsigned]

section Pointed

structure Pointed (whole fraction : List Char) : Prop where
  whole : Leading whole
  ne_nil : fraction ≠ []
  fraction : Digits fraction

theorem isDigit_or_underscore {c : Char} (h : c.isDigit = true) : (c.isDigit || c = '_') = true := by
  rw [h, Bool.true_or]

theorem Pointed.magnitude (h : Pointed whole fraction) : Magnitude (whole ++ '.' :: fraction) := by
  refine ⟨fun c hc => ?_, fun hf => ?_, '.', by simp, rfl⟩
  · rcases List.mem_append.1 hc with hmem | hmem
    · exact isFloatChar_of_isDigit (h.whole.digits c hmem)
    · rcases List.mem_cons.1 hmem with rfl | hmem
      · rfl
      · exact isFloatChar_of_isDigit (h.fraction c hmem)
  · cases head?_digits h.whole.ne_nil h.whole.digits 'f' hf

theorem Pointed.tail?_eq (h : Pointed whole fraction) :
    tail? ('.' :: fraction) = some (fraction, 0) := by
  have htake : fraction.takeWhile (fun c => c.isDigit || c = '_') = fraction :=
    List.takeWhile_eq_self_iff.2 fun c hc => isDigit_or_underscore (h.fraction c hc)
  simp only [tail?, htake, grouped?_digits h.ne_nil h.fraction, List.drop_length]
  rfl

theorem Pointed.ne_word {c : Char} {letters : List Char} (h : Pointed whole fraction)
    (hc : c.isDigit = false) : whole ++ '.' :: fraction ≠ c :: letters := by
  intro heq
  have hhead : ∀ d ∈ (whole ++ '.' :: fraction).head?, d.isDigit = true :=
    head?_digits h.whole.ne_nil h.whole.digits
  rw [heq] at hhead
  exact Bool.false_ne_true (hc.symm.trans (hhead c rfl))

theorem Pointed.reads (h : Pointed whole fraction) (hx : x.isFinite = true)
    (hbits : (ofParts whole fraction 0).bits = unsigned x) :
    Reads (minus x ++ (whole ++ '.' :: fraction)) (.float x) := by
  refine h.magnitude.reads ?_
  have hend : ∀ c ∈ ('.' :: fraction).head?, (c.isDigit || c = '_') = false :=
    Line.forall_head?_cons rfl
  have htake : (whole ++ '.' :: fraction).takeWhile (fun c => c.isDigit || c = '_') = whole :=
    Line.takeWhile_exact (fun c hc => isDigit_or_underscore (h.whole.digits c hc)) hend
  have hfinite : ¬ unsigned x = Binary64.infinityBits := (isFinite_iff.1 hx).ne
  rw [float?, h.magnitude.sign_eq]
  simp only [if_neg (h.ne_word (c := 'i') rfl), if_neg (h.ne_word (c := 'n') rfl), htake,
    wholeDigits?_leading h.whole, List.drop_left, h.tail?_eq, Option.bind_eq_bind, Option.bind_some,
    hbits, hfinite, decide_false, Bool.false_and, Bool.false_eq_true, if_false, toFloat_of_bits hbits]

end Pointed

theorem reads_truth (b : Bool) : Reads (if b then "true" else "false").toList (.boolean b) := by
  cases b with
  | true => exact reads_of_word ⟨List.cons_ne_nil _ _, by simp [isWordChar]⟩ rfl
  | false => exact reads_of_word ⟨List.cons_ne_nil _ _, by simp [isWordChar]⟩ rfl

def Unescaped (cs : List Char) : Prop :=
  ∀ c ∈ cs, isPlain c = true ∧ c ≠ '"' ∧ c ≠ '\\'

theorem quoted?_unescaped (h : Unescaped cs) (rest : List Char) :
    quoted? (cs ++ '"' :: rest) = some (cs, rest) := by
  induction cs with
  | nil => rfl
  | cons c cs ih =>
      obtain ⟨hplain, hquote, hbackslash⟩ := h c List.mem_cons_self
      have hrest := ih fun d hd => h d (List.mem_cons_of_mem _ hd)
      rw [List.cons_append, quoted?]
      · rw [if_pos hplain, hrest]
        rfl
      -- Each other reader begins with a quote or a backslash.
      all_goals
        intros
        contradiction

theorem reads_quoted (hne : cs ≠ []) (h : Unescaped cs) :
    Reads ('"' :: (cs ++ ['"'])) (.text (String.ofList cs)) := by
  intro rest
  have hquoted := quoted?_unescaped h ('\n' :: rest)
  have hstring : string? ('"' :: (cs ++ '"' :: '\n' :: rest)) = some (cs, '\n' :: rest) := by
    rw [string?, hquoted]
    cases cs with
    | nil => exact absurd rfl hne
    | cons c cs =>
        rintro tail heq
        exact (h c List.mem_cons_self).2.1 (List.cons.inj heq).1
  have hstart : skipWs ('"' :: (cs ++ ['"']) ++ '\n' :: rest) = '"' :: (cs ++ '"' :: '\n' :: rest) := by
    rw [List.cons_append, List.append_assoc]
    rfl
  rw [hstart, value?, hstring]
  rfl

end RuleInduction.Toml
