import RuleInduction.Fact.Line
import RuleInduction.Proofs.Decimal.Unfinished

namespace RuleInduction.Fact

open Text Line

inductive Arguments : List Char → List (List Char) → Prop
  | last {argument text : List Char} (h : Padded argument text) (hword : Word argument) :
      Arguments text [argument]
  | more {argument text rest : List Char} {arguments : List (List Char)}
      (h : Padded argument text) (hword : Word argument) (htail : Arguments rest arguments) :
      Arguments (text ++ ',' :: rest) (argument :: arguments)

inductive Atom : List Char → List Char → List (List Char) → Prop
  | intro {name head text stop : List Char} {arguments : List (List Char)}
      (hname : IsIdentifier name) (hhead : Padded name head) (hargs : Arguments text arguments)
      (hstop : Padded ['.'] stop) : Atom (head ++ '(' :: (text ++ ')' :: stop)) name arguments

/-- The lines of facts, with a weight or without. A name without a weight before it must not begin
like a number whose exponent has no digits. -/
inductive Wide : List Char → Parts → Prop
  | weighted {numeral front atom name : List Char} {arguments : List (List Char)} {weight : Float}
      (hnumeral : Numeral.Denotes numeral weight) (hfront : Padded numeral front)
      (hatom : Atom atom name arguments) :
      Wide (front ++ ':' :: ':' :: atom) ⟨some weight, name, arguments⟩
  | plain {atom name : List Char} {arguments : List (List Char)} (hatom : Atom atom name arguments)
      (hname : ¬ Numeral.OpensExponent name) : Wide atom ⟨none, name, arguments⟩

variable {cs text rest name argument : List Char} {arguments : List (List Char)} {parts : Parts}

theorem readArguments_comma
    (h : skipBlanks ((skipBlanks cs).dropWhile isIdentChar) = ',' :: rest) :
    readArguments cs =
      ((skipBlanks cs).takeWhile isIdentChar :: (readArguments rest).1, (readArguments rest).2) := by
  rw [readArguments]
  split
  · next heq => cases h.symm.trans heq; rfl
  · next hno => exact (hno _ h).elim

theorem readArguments_last
    (h : ∀ tail, skipBlanks ((skipBlanks cs).dropWhile isIdentChar) ≠ ',' :: tail) :
    readArguments cs = ([(skipBlanks cs).takeWhile isIdentChar],
      skipBlanks ((skipBlanks cs).dropWhile isIdentChar)) := by
  rw [readArguments]
  split
  · next heq => exact (h _ heq).elim
  · rfl

theorem arguments_of_read (cs : List Char) :
    ∃ text, Arguments text (readArguments cs).1 ∧ cs = text ++ (readArguments cs).2 := by
  fun_induction readArguments cs with
  | case1 cs start argument rest hcomma more ih =>
      obtain ⟨text, htext, hcs⟩ := exists_padded cs
      obtain ⟨tail, htail, hrest⟩ := ih
      refine ⟨text ++ ',' :: tail, .more htext (word_takeWhile _) htail, ?_⟩
      rw [List.append_assoc, List.cons_append, ← hrest, ← hcomma]
      exact hcs
  | case2 cs start argument hno =>
      obtain ⟨text, htext, hcs⟩ := exists_padded cs
      exact ⟨text, .last htext (word_takeWhile _), hcs⟩

theorem arguments_exact (h : Arguments text arguments) (rest : List Char) :
    readArguments (text ++ ')' :: rest) = (arguments, ')' :: rest) := by
  induction h with
  | last h hword =>
      have hclosed : Closed (')' :: rest) := closed_of_delimiter (by simp)
      have hend := skipBlanks_dropWhile_of_padded h hword hclosed
      rw [readArguments_last, hend, takeWhile_of_padded h hword hclosed]
      rintro tail heq
      cases hend.symm.trans heq
  | @more argument text tail arguments h hword htail ih =>
      have hclosed : Closed (',' :: (tail ++ ')' :: rest)) := closed_of_delimiter (by simp)
      rw [List.append_assoc, List.cons_append,
        readArguments_comma (skipBlanks_dropWhile_of_padded h hword hclosed), ih,
        takeWhile_of_padded h hword hclosed]

def readAtom (weight? : Option Float) (cs : List Char) : Except Stop Parts := do
  let (name, rest) ← Line.name cs
  let rest ← expect '(' rest
  let (arguments, rest) := readArguments rest
  let rest ← expect ')' rest
  let rest ← expect '.' (skipBlanks rest)
  finish ⟨weight?, name, arguments⟩ (skipBlanks rest)

theorem readParts_eq (cs : List Char) :
    readParts cs = (readWeight? cs >>= fun read => readAtom read.1 read.2) :=
  rfl

theorem readAtom_of_atom (h : Atom cs name arguments) (weight? : Option Float) :
    readAtom weight? cs = .ok ⟨weight?, name, arguments⟩ := by
  cases h with
  | @intro name head text stop arguments hname hhead hargs hstop =>
      have hparen : Closed ('(' :: (text ++ ')' :: stop)) := closed_of_delimiter (by simp)
      obtain ⟨after, hafter, hstop⟩ := expect_of_padded hstop rfl
      simp only [readAtom, bind_eq_ok]
      refine ⟨_, name_of_padded hhead hname hparen, _, expect_self '(' _, ?_⟩
      rw [arguments_exact hargs]
      refine ⟨_, expect_self ')' _, after, hstop, ?_⟩
      rw [skipBlanks_eq_nil_iff.2 hafter]
      rfl

theorem atom_of_readAtom {weight? : Option Float} (h : readAtom weight? cs = .ok parts) :
    parts.weight? = weight? ∧ Atom cs parts.name parts.arguments := by
  simp only [readAtom, bind_eq_ok] at h
  obtain ⟨⟨name, r₁⟩, hname, r₂, hparen, r₃, hclose, r₄, hstop, hfinish⟩ := h
  obtain ⟨head, hhead, hident, rfl⟩ := padded_of_name hname
  obtain ⟨text, htext, hargs⟩ := arguments_of_read r₂
  obtain ⟨hend, rfl⟩ := eq_nil_of_finish hfinish
  have hparen : r₁ = '(' :: r₂ := eq_cons_of_expect hparen
  have hcs : head ++ r₁ = head ++ '(' :: (text ++ ')' :: r₃) := by
    rw [hparen, ← eq_cons_of_expect hclose, ← hargs]
  have hstop : Padded ['.'] r₃ := padded_of_expect hstop (skipBlanks_eq_nil_iff.1 hend)
  exact ⟨rfl, hcs ▸ .intro hident hhead htext hstop⟩

theorem readWeight_of_numeral {numeral front : List Char} {weight : Float}
    (hnumeral : Numeral.Denotes numeral weight) (hfront : Padded numeral front) (rest : List Char) :
    readWeight (front ++ ':' :: ':' :: rest) = .ok (weight, rest) := by
  obtain ⟨before, after, hbefore, hafter, rfl⟩ := hfront
  have hstart : skipBlanks (before ++ (numeral ++ (after ++ ':' :: ':' :: rest))) =
      numeral ++ (after ++ ':' :: ':' :: rest) :=
    skipBlanks_append hbefore (Numeral.isBlank_denotes hnumeral)
  have hcolon : skipBlanks (after ++ ':' :: ':' :: rest) = ':' :: ':' :: rest :=
    skipBlanks_append hafter (forall_head?_cons rfl)
  have hforeign : Numeral.Foreign (after ++ ':' :: ':' :: rest) :=
    Numeral.foreign_gap hafter rfl
  simp only [readWeight, bind_eq_ok]
  refine ⟨(weight, after ++ ':' :: ':' :: rest), ?_, _, ?_, _, expect_self ':' _, rfl⟩
  · rw [List.append_assoc, List.append_assoc, hstart]
    exact Numeral.read_of_denotes hnumeral hforeign
  · rw [hcolon]
    exact expect_self ':' _

theorem numeral_of_readWeight {weight : Float} (h : readWeight cs = .ok (weight, rest)) :
    ∃ numeral front, Numeral.Denotes numeral weight ∧ Padded numeral front ∧
      cs = front ++ ':' :: ':' :: rest := by
  simp only [readWeight, bind_eq_ok] at h
  obtain ⟨⟨value, r₁⟩, hread, r₂, hfirst, r₃, hsecond, hreturn⟩ := h
  cases hreturn
  obtain ⟨numeral, hnumeral, hstart⟩ := Numeral.denotes_of_read hread
  have hfirst := eq_cons_of_expect hfirst
  have hsecond := eq_cons_of_expect hsecond
  refine ⟨numeral, _, hnumeral,
    ⟨cs.takeWhile isBlank, r₁.takeWhile isBlank, blanks_takeWhile _, blanks_takeWhile _, rfl⟩, ?_⟩
  rw [List.append_assoc, List.append_assoc, ← hsecond, ← hfirst, takeWhile_append_skipBlanks,
    ← hstart, takeWhile_append_skipBlanks]

theorem committed_of_readWeight {stop : Stop} :
    (readWeight cs = .error stop ∧ stop.committed = true) ↔
      Numeral.read (skipBlanks cs) = .error stop ∧ stop.committed = true := by
  simp only [readWeight, bind_eq_error]
  constructor
  · rintro ⟨h, hstop⟩
    rcases h with hread | ⟨_, _, hcolon | ⟨_, _, hcolon | ⟨_, _, hreturn⟩⟩⟩
    · exact ⟨hread, hstop⟩
    · cases (committed_of_expect hcolon).symm.trans hstop
    · cases (committed_of_expect hcolon).symm.trans hstop
    · cases hreturn
  · exact fun ⟨hread, hstop⟩ => ⟨.inl hread, hstop⟩

theorem committed_iff_opensExponent (h : Atom cs name arguments) :
    (∃ stop, readWeight cs = .error stop ∧ stop.committed = true) ↔
      Numeral.OpensExponent name := by
  simp only [committed_of_readWeight]
  cases h with
  | @intro name head text stop arguments hname hhead hargs hstop =>
      have hparen : Closed ('(' :: (text ++ ')' :: stop)) := closed_of_delimiter (by simp)
      obtain ⟨gap, hgap, hstart⟩ := exists_gap hhead hname.2 hparen
      rw [hstart, Numeral.committed_iff_unfinished]
      exact Numeral.unfinished_append_iff hname.2 (Numeral.foreign_gap hgap rfl)

theorem colon_not_mem_word (h : Word cs) : ':' ∉ cs :=
  fun hc => absurd (h ':' hc) (by decide +kernel)

theorem colon_not_mem_padded {token : List Char} (h : Padded token text) (htoken : ':' ∉ token) :
    ':' ∉ text := by
  obtain ⟨before, after, hbefore, hafter, rfl⟩ := h
  simp only [List.mem_append, not_or]
  exact ⟨fun hc => (nomatch hbefore ':' hc), htoken, fun hc => (nomatch hafter ':' hc)⟩

theorem colon_not_mem_arguments (h : Arguments text arguments) : ':' ∉ text := by
  induction h with
  | last h hword => exact colon_not_mem_padded h (colon_not_mem_word hword)
  | more h hword htail ih =>
      simp only [List.mem_append, List.mem_cons, not_or]
      exact ⟨colon_not_mem_padded h (colon_not_mem_word hword), by decide, ih⟩

theorem colon_not_mem_atom (h : Atom cs name arguments) : ':' ∉ cs := by
  cases h with
  | intro hname hhead hargs hstop =>
      simp only [List.mem_append, List.mem_cons, not_or]
      exact ⟨colon_not_mem_padded hhead (colon_not_mem_word hname.2), by decide,
        colon_not_mem_arguments hargs, by decide, colon_not_mem_padded hstop (by decide)⟩

-- An atom has no colon, so no weight is read off it; what remains to be shown is that the attempt does
-- not commit itself.
theorem readWeight?_of_atom (h : Atom cs name arguments) (hname : ¬ Numeral.OpensExponent name) :
    readWeight? cs = .ok (none, cs) := by
  unfold readWeight?
  split
  · next weight rest hweight =>
      obtain ⟨numeral, front, _, _, hcs⟩ := numeral_of_readWeight hweight
      exact absurd (show ':' ∈ cs by simp [hcs]) (colon_not_mem_atom h)
  · next stop herror =>
      rw [if_neg]
      exact fun hcommitted => hname ((committed_iff_opensExponent h).1 ⟨stop, herror, hcommitted⟩)

theorem readWeight?_eq_some {weight : Float} :
    readWeight? cs = .ok (some weight, rest) ↔ readWeight cs = .ok (weight, rest) := by
  unfold readWeight?
  split
  · next value tail hread => simp [hread]
  · next stop hread => cases hstop : stop.committed <;> simp [hread]

theorem readWeight?_eq_none (h : readWeight? cs = .ok (none, rest)) :
    rest = cs ∧ ¬ ∃ stop, readWeight cs = .error stop ∧ stop.committed = true := by
  unfold readWeight? at h
  split at h
  · cases h
  · next stop herror =>
      split at h
      · cases h
      · next hstop =>
          cases h
          refine ⟨rfl, ?_⟩
          rintro ⟨_, herror', hcommitted⟩
          cases herror.symm.trans herror'
          exact hstop hcommitted

theorem readParts_eq_ok_iff : readParts cs = .ok parts ↔ Wide cs parts := by
  rw [readParts_eq, bind_eq_ok]
  constructor
  · rintro ⟨⟨weight?, rest⟩, hweight, hatom⟩
    obtain ⟨hparts, hatom⟩ := atom_of_readAtom hatom
    obtain ⟨weight?, name, arguments⟩ := parts
    cases hparts
    cases weight? with
    | some weight =>
        obtain ⟨numeral, front, hnumeral, hfront, rfl⟩ :=
          numeral_of_readWeight (readWeight?_eq_some.1 hweight)
        exact .weighted hnumeral hfront hatom
    | none =>
        obtain ⟨rfl, hcommitted⟩ := readWeight?_eq_none hweight
        exact .plain hatom fun hopens => hcommitted ((committed_iff_opensExponent hatom).2 hopens)
  · intro h
    cases h with
    | weighted hnumeral hfront hatom =>
        exact ⟨_, readWeight?_eq_some.2 (readWeight_of_numeral hnumeral hfront _),
          readAtom_of_atom hatom _⟩
    | plain hatom hname =>
        exact ⟨_, readWeight?_of_atom hatom hname, readAtom_of_atom hatom none⟩

variable {line : String}

theorem malformedFact_of_not_wide (h : ¬ ∃ parts, Wide (trim line.toList) parts) :
    ∃ offset, parse line = .error (.malformedFact (String.ofList (trim line.toList)) offset) := by
  cases hread : readParts (trim line.toList) with
  | ok parts => exact absurd ⟨parts, readParts_eq_ok_iff.1 hread⟩ h
  | error stop => exact ⟨offset (trim line.toList) stop.rest, by simp only [parse, hread]⟩

theorem emptyArgument_of_wide (h : Wide (trim line.toList) parts) {position : Nat}
    (hempty : parts.arguments.findIdx? List.isEmpty = some position) :
    parse line = .error (.emptyArgument (String.ofList (trim line.toList)) position) := by
  simp only [parse, readParts_eq_ok_iff.2 h, hempty]

theorem parse_of_wide (h : Wide (trim line.toList) parts)
    (hempty : parts.arguments.findIdx? List.isEmpty = none) :
    let weight := parts.weight?.getD 1.0
    parse line =
      if weight.isFinite then
        .ok ⟨weight, String.ofList parts.name, parts.arguments.map String.ofList⟩
      else .error (.invalidWeight (String.ofList (trim line.toList)) (Decimal.write weight)) := by
  simp only [parse, readParts_eq_ok_iff.2 h, hempty]

theorem findIdx?_isEmpty_eq_some_iff {position : Nat} :
    arguments.findIdx? List.isEmpty = some position ↔
      arguments[position]? = some [] ∧ ∀ k < position, arguments[k]? ≠ some [] := by
  rw [List.findIdx?_eq_some_iff_getElem]
  constructor
  · rintro ⟨hlt, hempty, hbefore⟩
    refine ⟨?_, fun k hk => ?_⟩
    · rw [List.getElem?_eq_getElem hlt, List.isEmpty_iff.1 hempty]
    · rw [List.getElem?_eq_getElem (hk.trans hlt)]
      intro hk'
      exact hbefore k hk (List.isEmpty_iff.2 (Option.some.inj hk'))
  · rintro ⟨hempty, hbefore⟩
    obtain ⟨hlt, hempty⟩ := List.getElem?_eq_some_iff.1 hempty
    refine ⟨hlt, List.isEmpty_iff.2 hempty, fun k hk hk' => ?_⟩
    refine hbefore k hk ?_
    rw [List.getElem?_eq_getElem (hk.trans hlt), List.isEmpty_iff.1 hk']

theorem findIdx?_isEmpty_eq_none_iff :
    arguments.findIdx? List.isEmpty = none ↔ [] ∉ arguments := by
  simp only [List.findIdx?_eq_none_iff, List.isEmpty_eq_false_iff]
  exact ⟨fun h hmem => h [] hmem rfl, fun h argument hmem heq => h (heq ▸ hmem)⟩

theorem emptyArgument_iff_of_wide (h : Wide (trim line.toList) parts) (position : Nat) :
    parse line = .error (.emptyArgument (String.ofList (trim line.toList)) position) ↔
      parts.arguments[position]? = some [] ∧
        ∀ k < position, parts.arguments[k]? ≠ some [] := by
  rw [← findIdx?_isEmpty_eq_some_iff]
  cases hempty : parts.arguments.findIdx? List.isEmpty with
  | some first => rw [emptyArgument_of_wide h hempty]; simp
  | none =>
      rw [parse_of_wide h hempty]
      split <;> simp

theorem not_malformedFact_of_wide (h : Wide (trim line.toList) parts) (shown : String)
    (offset : Nat) : parse line ≠ .error (.malformedFact shown offset) := by
  cases hempty : parts.arguments.findIdx? List.isEmpty with
  | some position => rw [emptyArgument_of_wide h hempty]; simp
  | none =>
      rw [parse_of_wide h hempty]
      split <;> simp

theorem parse_iff_wide (line : String) :
    let cs := trim line.toList
    let shown := String.ofList cs
    ((∃ offset, parse line = .error (.malformedFact shown offset)) ↔ ¬ ∃ parts, Wide cs parts) ∧
    ∀ parts, Wide cs parts →
      let weight := parts.weight?.getD 1.0
      (∀ position, parse line = .error (.emptyArgument shown position) ↔
        parts.arguments[position]? = some [] ∧ ∀ k < position, parts.arguments[k]? ≠ some []) ∧
      ([] ∉ parts.arguments →
        (weight.isFinite = false →
          parse line = .error (.invalidWeight shown (Decimal.write weight))) ∧
        (weight.isFinite = true → parse line =
          .ok ⟨weight, String.ofList parts.name, parts.arguments.map String.ofList⟩)) := by
  intro cs shown
  refine ⟨⟨?_, malformedFact_of_not_wide⟩, ?_⟩
  · rintro ⟨offset, hparse⟩ ⟨parts, hwide⟩
    exact not_malformedFact_of_wide hwide shown offset hparse
  · intro parts hwide weight
    refine ⟨emptyArgument_iff_of_wide hwide, fun hnone => ?_⟩
    have hparse := parse_of_wide hwide (findIdx?_isEmpty_eq_none_iff.2 hnone)
    constructor
    · intro hweight
      rw [hparse, if_neg (Bool.eq_false_iff.1 hweight)]
    · intro hweight
      rw [hparse, if_pos hweight]

theorem parse_iff_wide_likes :
    let line := " 2e1 :: likes (mary, wine) ."
    let parts : Parts := ⟨some 20.0, "likes".toList, ["mary".toList, "wine".toList]⟩
    Wide (trim line.toList) parts ∧
      parse line = .ok ⟨20.0, "likes", ["mary", "wine"]⟩ := by
  intro line parts
  have hnumeral : Numeral.Denotes "2e1".toList 20.0 := by
    have hvalue : (Numeral.ofParts ['2'] [] 1).toFloat false = 20.0 := by decide +kernel
    have hm : Numeral.Mantissa ['2'] ['2'] [] := .whole (by decide) (by decide)
    have he : Numeral.Exponent ('e' :: ([] ++ ['1'])) 1 :=
      .present (.inl rfl) .absent (by decide) (by decide)
    exact hvalue ▸ .decimal .absent hm he
  have hargs : Arguments "mary, wine".toList parts.arguments := by
    have hmary : Padded "mary".toList "mary".toList := ⟨[], [], by decide, by decide, rfl⟩
    have hwine : Padded "wine".toList " wine".toList := ⟨[' '], [], by decide, by decide, rfl⟩
    exact .more hmary (by decide +kernel) (.last hwine (by decide +kernel))
  have hatom : Atom " likes (mary, wine) .".toList "likes".toList parts.arguments := by
    have hname : Padded "likes".toList " likes ".toList := ⟨[' '], [' '], by decide, by decide, rfl⟩
    have hstop : Padded ['.'] " .".toList := ⟨[' '], [], by decide, by decide, rfl⟩
    have hword : Word "likes".toList := by decide +kernel
    exact .intro ⟨List.cons_ne_nil _ _, hword⟩ hname hargs hstop
  have hwide : Wide (trim line.toList) parts := by
    have hfront : Padded "2e1".toList "2e1 ".toList := ⟨[], [' '], by decide, by decide, rfl⟩
    have hline : trim line.toList =
        "2e1 ".toList ++ ':' :: ':' :: " likes (mary, wine) .".toList := by decide +kernel
    exact hline ▸ .weighted hnumeral hfront hatom
  exact ⟨hwide, (((parse_iff_wide line).2 parts hwide).2 (by decide)).2 (by decide +kernel)⟩

end RuleInduction.Fact
