import RuleInduction.Decimal.Numeral
import RuleInduction.Proofs.Line

namespace RuleInduction.Numeral

open Text

def Digits (cs : List Char) : Prop :=
  ∀ c ∈ cs, c.isDigit = true

instance (cs : List Char) : Decidable (Digits cs) :=
  List.decidableBAll _ cs

inductive Sign : List Char → Bool → Prop
  | absent : Sign [] false
  | plus : Sign ['+'] false
  | minus : Sign ['-'] true

inductive Mantissa : List Char → List Char → List Char → Prop
  | whole {ds : List Char} (hne : ds ≠ []) (hds : Digits ds) : Mantissa ds ds []
  | point {whole fraction : List Char} (hne : whole ≠ []) (hwhole : Digits whole)
      (hfraction : Digits fraction) : Mantissa (whole ++ '.' :: fraction) whole fraction
  | fraction {ds : List Char} (hne : ds ≠ []) (hds : Digits ds) : Mantissa ('.' :: ds) [] ds

def ExponentLetter (c : Char) : Prop :=
  c = 'e' ∨ c = 'E'

inductive Exponent : List Char → Int → Prop
  | absent : Exponent [] 0
  | present {letter : Char} {s ds : List Char} {negative : Bool} (hletter : ExponentLetter letter)
      (hs : Sign s negative) (hne : ds ≠ []) (hds : Digits ds) :
      Exponent (letter :: (s ++ ds)) (signed negative (Nat.ofDigitChars 10 ds 0))

inductive Denotes : List Char → Float → Prop
  | decimal {s m e whole fraction : List Char} {negative : Bool} {x : Int} (hs : Sign s negative)
      (hm : Mantissa m whole fraction) (he : Exponent e x) :
      Denotes (s ++ (m ++ e)) ((ofParts whole fraction x).toFloat negative)
  | nan {cs : List Char} (h : cs.map Char.toLower = ['n', 'a', 'n']) : Denotes cs (0.0 / 0.0)
  | infinite {cs : List Char} (h : cs.map Char.toLower = ['i', 'n', 'f']) : Denotes cs (1.0 / 0.0)

variable {cs rest whole fraction ds : List Char} {negative : Bool} {x : Int}

theorem digits_of_read (h : digits cs = (ds, rest)) : Digits ds ∧ cs = ds ++ rest := by
  cases h
  exact ⟨fun _ hc => List.mem_takeWhile_imp hc, List.takeWhile_append_dropWhile.symm⟩

theorem digits_exact (hds : Digits ds) (hrest : ∀ c ∈ rest.head?, c.isDigit = false) :
    digits (ds ++ rest) = (ds, rest) :=
  Prod.ext (Line.takeWhile_exact hds hrest) (Line.dropWhile_exact hds hrest)

theorem digits_nil (hrest : ∀ c ∈ rest.head?, c.isDigit = false) : digits rest = ([], rest) := by
  have hnil : Digits [] := fun _ hc => nomatch hc
  exact digits_exact hnil hrest

theorem digits_point (cs : List Char) : digits ('.' :: cs) = ([], '.' :: cs) :=
  rfl

theorem sign_of_read (h : sign cs = (negative, rest)) : ∃ s, Sign s negative ∧ cs = s ++ rest := by
  unfold sign at h
  split at h
  · cases h; exact ⟨_, .minus, rfl⟩
  · cases h; exact ⟨_, .plus, rfl⟩
  · cases h; exact ⟨_, .absent, rfl⟩

theorem sign_absent (hrest : ∀ c ∈ rest.head?, c ≠ '-' ∧ c ≠ '+') : sign rest = (false, rest) := by
  fun_cases sign rest with
  | case1 => exact absurd rfl (hrest '-' rfl).1
  | case2 => exact absurd rfl (hrest '+' rfl).2
  | case3 => rfl

theorem sign_exact {s : List Char} (hs : Sign s negative)
    (hrest : ∀ c ∈ rest.head?, c ≠ '-' ∧ c ≠ '+') : sign (s ++ rest) = (negative, rest) := by
  cases hs with
  | absent => exact sign_absent hrest
  | plus => rfl
  | minus => rfl

theorem head?_digits (hne : ds ≠ []) (hds : Digits ds) :
    ∀ c ∈ (ds ++ rest).head?, c.isDigit = true := by
  cases ds with
  | nil => exact absurd rfl hne
  | cons d tail => exact Line.forall_head?_cons (hds d List.mem_cons_self)

theorem not_sign_of_isDigit {c : Char} (h : c.isDigit = true) : c ≠ '-' ∧ c ≠ '+' := by
  constructor <;> rintro rfl <;> cases h

theorem mantissa_of_read (h : mantissa? cs = some ((whole, fraction), rest)) :
    ∃ m, Mantissa m whole fraction ∧ cs = m ++ rest := by
  fun_cases mantissa? cs with
  | case1 tail hcs r htail => simp only [mantissa?, hcs, htail, reduceCtorEq] at h
  | case2 tail hcs ds r hne htail =>
      simp only [mantissa?, hcs, htail] at h
      cases h
      obtain ⟨hds, rfl⟩ := digits_of_read htail
      exact ⟨_, .fraction hne hds, (digits_of_read hcs).2⟩
  | case3 r hpoint hcs => simp only [mantissa?, hcs, reduceCtorEq] at h
  | case4 ds tail hne hcs =>
      simp only [mantissa?, hcs] at h
      cases h
      obtain ⟨hds, rfl⟩ := digits_of_read hcs
      obtain ⟨hfraction, htail⟩ := digits_of_read (Prod.eta (digits tail)).symm
      refine ⟨_, .point hne hds hfraction, ?_⟩
      rw [List.append_assoc, List.cons_append, ← htail]
  | case5 ds r _ hne _ hcs =>
      simp only [mantissa?, hcs] at h
      cases h
      obtain ⟨hds, rfl⟩ := digits_of_read hcs
      exact ⟨_, .whole hne hds, rfl⟩

def AfterDigits (cs : List Char) : Prop :=
  ∀ c ∈ cs.head?, c.isDigit = false ∧ c ≠ '.'

theorem mantissa_exact {m : List Char} (hm : Mantissa m whole fraction)
    (hrest : AfterDigits rest) : mantissa? (m ++ rest) = some ((whole, fraction), rest) := by
  have hend : ∀ c ∈ rest.head?, c.isDigit = false := fun c hc => (hrest c hc).1
  cases hm with
  | whole hne hds =>
      rw [mantissa?, digits_exact hds hend]
      split
      · next heq => cases heq; exact absurd rfl hne
      · next heq => cases heq; exact absurd rfl hne
      · next heq => cases heq; exact absurd rfl (hrest '.' rfl).2
      · next heq => cases heq; rfl
  | point hne hwhole hfraction =>
      have hpoint : ∀ c ∈ ('.' :: (fraction ++ rest)).head?, c.isDigit = false :=
        Line.forall_head?_cons rfl
      rw [List.append_assoc, List.cons_append, mantissa?, digits_exact hwhole hpoint]
      split
      · next heq => cases heq; exact absurd rfl hne
      · next heq => cases heq; exact absurd rfl hne
      · next heq =>
          cases heq
          rw [digits_exact hfraction hend]
      · next hno heq =>
          cases heq
          exact (hno _ rfl).elim
  | fraction hne hds =>
      rw [List.cons_append, mantissa?, digits_point]
      simp only [digits_exact hds hend]

theorem head?_mantissa {m : List Char} (hm : Mantissa m whole fraction) :
    ∀ c ∈ (m ++ rest).head?, c.isDigit = true ∨ c = '.' := by
  cases hm with
  | whole hne hds => exact fun c hc => .inl (head?_digits hne hds c hc)
  | point hne hwhole =>
      rw [List.append_assoc]
      exact fun c hc => .inl (head?_digits hne hwhole c hc)
  | fraction hne hds => exact Line.forall_head?_cons (.inr rfl)

theorem not_sign_of_mantissa {m : List Char} (hm : Mantissa m whole fraction) :
    ∀ c ∈ (m ++ rest).head?, c ≠ '-' ∧ c ≠ '+' := by
  intro c hc
  rcases head?_mantissa hm c hc with hdigit | rfl
  · exact not_sign_of_isDigit hdigit
  · decide

theorem mantissa_none (hrest : AfterDigits cs) : mantissa? cs = none := by
  rw [mantissa?, digits_nil fun c hc => (hrest c hc).1]
  split
  · next heq => cases heq; exact absurd rfl (hrest '.' rfl).2
  · rfl
  · next hne heq => cases heq; exact (hne rfl).elim
  · next _ hne _ heq => cases heq; exact (hne rfl).elim

theorem exponent?_letter {letter : Char} (h : ExponentLetter letter) (cs : List Char) :
    exponent? (letter :: cs) =
      if (digits (sign cs).2).1 = [] then none
      else some (signed (sign cs).1 (Nat.ofDigitChars 10 (digits (sign cs).2).1 0),
        (digits (sign cs).2).2) := by
  rcases h with rfl | rfl <;> simp only [exponent?] <;> split
  · next heq => simp [heq]
  · next hne heq => rw [heq, if_neg hne]
  · next heq => simp [heq]
  · next hne heq => rw [heq, if_neg hne]

theorem exponent?_other (h : ∀ c ∈ cs.head?, ¬ ExponentLetter c) : exponent? cs = some (0, cs) := by
  unfold exponent?
  split
  · exact absurd (.inl rfl) (h _ rfl)
  · exact absurd (.inr rfl) (h _ rfl)
  · rfl

theorem exponent?_cons_other {letter : Char} (h : ¬ ExponentLetter letter) (cs : List Char) :
    exponent? (letter :: cs) = some (0, letter :: cs) :=
  exponent?_other (Line.forall_head?_cons h)

theorem exponent_of_read (h : exponent? cs = some (x, rest)) :
    ∃ e, Exponent e x ∧ cs = e ++ rest := by
  cases cs with
  | nil => cases h; exact ⟨[], .absent, rfl⟩
  | cons letter tail =>
      by_cases hletter : ExponentLetter letter
      · rw [exponent?_letter hletter] at h
        split at h
        · cases h
        · next hne =>
            cases h
            obtain ⟨s, hs, htail⟩ := sign_of_read (Prod.eta (sign tail)).symm
            obtain ⟨hds, hrest⟩ := digits_of_read (Prod.eta (digits (sign tail).2)).symm
            refine ⟨_, .present hletter hs hne hds, ?_⟩
            rw [List.cons_append, List.append_assoc, ← hrest, ← htail]
      · rw [exponent?_cons_other hletter] at h
        cases h
        exact ⟨[], .absent, rfl⟩

def isNumeralChar (c : Char) : Bool :=
  c.isDigit || c = '.' || c = '-' || c = '+' || c = 'e' || c = 'E'

theorem isNumeralChar_of_isDigit {c : Char} (h : c.isDigit = true) : isNumeralChar c = true := by
  simp [isNumeralChar, h]

theorem isNumeralChar_of_letter {c : Char} (h : ExponentLetter c) : isNumeralChar c = true := by
  rcases h with rfl | rfl <;> rfl

theorem isNumeralChar_eq_false_iff {c : Char} : isNumeralChar c = false ↔
    c.isDigit = false ∧ c ≠ '.' ∧ c ≠ '-' ∧ c ≠ '+' ∧ ¬ ExponentLetter c := by
  simp [isNumeralChar, ExponentLetter, and_assoc]

def Foreign (cs : List Char) : Prop :=
  ∀ c ∈ cs.head?, isNumeralChar c = false

theorem Foreign.afterDigits (h : Foreign rest) : AfterDigits rest := by
  intro c hc
  obtain ⟨hdigit, hpoint, _⟩ := isNumeralChar_eq_false_iff.1 (h c hc)
  exact ⟨hdigit, hpoint⟩

theorem Foreign.isDigit_eq (h : Foreign rest) : ∀ c ∈ rest.head?, c.isDigit = false :=
  fun c hc => (isNumeralChar_eq_false_iff.1 (h c hc)).1

theorem Foreign.not_sign (h : Foreign rest) : ∀ c ∈ rest.head?, c ≠ '-' ∧ c ≠ '+' := by
  intro c hc
  obtain ⟨_, _, hminus, hplus, _⟩ := isNumeralChar_eq_false_iff.1 (h c hc)
  exact ⟨hminus, hplus⟩

theorem Foreign.not_letter (h : Foreign rest) : ∀ c ∈ rest.head?, ¬ ExponentLetter c :=
  fun c hc => (isNumeralChar_eq_false_iff.1 (h c hc)).2.2.2.2

theorem exponent_exact {e : List Char} (he : Exponent e x) (hrest : Foreign rest) :
    exponent? (e ++ rest) = some (x, rest) := by
  cases he with
  | absent => exact exponent?_other hrest.not_letter
  | @present letter s ds negative hletter hs hne hds =>
      have hsign : sign (s ++ (ds ++ rest)) = (negative, ds ++ rest) :=
        sign_exact hs fun c hc => not_sign_of_isDigit (head?_digits hne hds c hc)
      rw [List.cons_append, List.append_assoc, exponent?_letter hletter, hsign]
      rw [digits_exact hds hrest.isDigit_eq, if_neg hne]

theorem afterDigits_letter {letter : Char} (h : ExponentLetter letter) :
    AfterDigits (letter :: rest) := by
  refine Line.forall_head?_cons ?_
  rcases h with rfl | rfl <;> decide

theorem afterDigits_exponent {e : List Char} (he : Exponent e x) (hrest : Foreign rest) :
    AfterDigits (e ++ rest) := by
  cases he with
  | absent => exact hrest.afterDigits
  | present hletter => exact afterDigits_letter hletter

theorem denotes_of_read {value : Float} (h : read cs = .ok (value, rest)) :
    ∃ n, Denotes n value ∧ cs = n ++ rest := by
  simp only [read] at h
  split at h
  · next whole fraction tail hmantissa =>
      split at h
      · next exponent after hexponent =>
          cases h
          obtain ⟨s, hs, hbody⟩ := sign_of_read (Prod.eta (sign cs)).symm
          obtain ⟨m, hm, htail⟩ := mantissa_of_read hmantissa
          obtain ⟨e, he, hafter⟩ := exponent_of_read hexponent
          refine ⟨_, .decimal hs hm he, ?_⟩
          rw [List.append_assoc, List.append_assoc, ← hafter, ← htail, ← hbody]
      · cases h
  · split at h
    · next hword =>
        cases h
        exact ⟨cs.take 3, .nan (of_decide_eq_true hword), (List.take_append_drop 3 cs).symm⟩
    · split at h
      · next hword =>
          cases h
          exact ⟨cs.take 3, .infinite (of_decide_eq_true hword), (List.take_append_drop 3 cs).symm⟩
      · cases h

theorem toLower_of_isDigit {c : Char} (h : c.isDigit = true) : c.toLower = c := by
  simp only [Char.isDigit, Bool.and_eq_true, decide_eq_true_eq] at h
  refine dif_neg ?_
  rintro ⟨hupper, _⟩
  exact absurd (UInt32.le_trans hupper h.2) (by decide)

theorem isNumeralChar_of_toLower {c : Char} (h : c.toLower = 'n' ∨ c.toLower = 'i') :
    isNumeralChar c = false := by
  by_contra hnumeral
  simp only [isNumeralChar, Bool.not_eq_false, Bool.or_eq_true, decide_eq_true_eq] at hnumeral
  rcases hnumeral with ((((hdigit | rfl) | rfl) | rfl) | rfl) | rfl
  · rw [toLower_of_isDigit hdigit] at h
    rcases h with rfl | rfl <;> cases hdigit
  all_goals
    revert h
    decide

theorem head?_word {n word : List Char} {letter : Char}
    (h : n.map Char.toLower = letter :: word) (hletter : letter = 'n' ∨ letter = 'i') :
    ∀ c ∈ (n ++ rest).head?, c.toLower = 'n' ∨ c.toLower = 'i' := by
  cases n with
  | nil => cases h
  | cons d tail =>
      obtain ⟨hd, _⟩ := List.cons.inj h
      exact Line.forall_head?_cons (hd ▸ hletter)

theorem foreign_word {n word : List Char} {letter : Char}
    (h : n.map Char.toLower = letter :: word) (hletter : letter = 'n' ∨ letter = 'i') :
    Foreign (n ++ rest) :=
  fun c hc => isNumeralChar_of_toLower (head?_word h hletter c hc)

theorem startsWithWord_append (word : List Char) {n : List Char} (h : n.length = word.length) :
    startsWithWord word (n ++ rest) = decide (n.map Char.toLower = word) := by
  rw [startsWithWord, List.take_left' h]

theorem read_of_denotes {n : List Char} {value : Float} (h : Denotes n value)
    (hrest : Foreign rest) : read (n ++ rest) = .ok (value, rest) := by
  cases h with
  | decimal hs hm he =>
      rw [List.append_assoc, List.append_assoc]
      simp only [read, sign_exact hs (not_sign_of_mantissa hm),
        mantissa_exact hm (afterDigits_exponent he hrest), exponent_exact he hrest]
  | nan h =>
      have hlength : n.length = 3 := by simpa using congrArg List.length h
      have hforeign : Foreign (n ++ rest) := foreign_word h (.inl rfl)
      simp only [read, sign_absent hforeign.not_sign, mantissa_none hforeign.afterDigits,
        startsWithWord_append ['n', 'a', 'n'] hlength, h, decide_true, if_true,
        List.drop_left' hlength]
  | infinite h =>
      have hlength : n.length = 3 := by simpa using congrArg List.length h
      have hforeign : Foreign (n ++ rest) := foreign_word h (.inr rfl)
      simp only [read, sign_absent hforeign.not_sign, mantissa_none hforeign.afterDigits,
        startsWithWord_append ['n', 'a', 'n'] hlength,
        startsWithWord_append ['i', 'n', 'f'] hlength, h, List.drop_left' hlength]
      rfl

theorem isNumeralChar_of_isBlank {c : Char} (h : isBlank c = true) : isNumeralChar c = false := by
  simp only [isBlank, Bool.or_eq_true, decide_eq_true_eq] at h
  rcases h with ((rfl | rfl) | rfl) | rfl <;> rfl

theorem isBlank_of_isNumeralChar {c : Char} (h : isNumeralChar c = true) : isBlank c = false := by
  by_contra hblank
  rw [isNumeralChar_of_isBlank (Bool.of_not_eq_false hblank)] at h
  cases h

theorem foreign_gap {gap : List Char} {c : Char} (hgap : Line.Blanks gap)
    (hc : isNumeralChar c = false) : Foreign (gap ++ c :: rest) := by
  cases gap with
  | nil => exact Line.forall_head?_cons hc
  | cons b bs =>
      exact Line.forall_head?_cons (isNumeralChar_of_isBlank (hgap b List.mem_cons_self))

theorem isNumeralChar_head? {s m : List Char} (hs : Sign s negative)
    (hm : Mantissa m whole fraction) : ∀ c ∈ (s ++ (m ++ rest)).head?, isNumeralChar c = true := by
  cases hs with
  | absent =>
      intro c hc
      rcases head?_mantissa hm c hc with hdigit | rfl
      · exact isNumeralChar_of_isDigit hdigit
      · rfl
  | plus => exact Line.forall_head?_cons rfl
  | minus => exact Line.forall_head?_cons rfl

theorem isBlank_of_toLower {c : Char} (h : c.toLower = 'n' ∨ c.toLower = 'i') :
    isBlank c = false := by
  by_contra hblank
  simp only [isBlank, Bool.not_eq_false, Bool.or_eq_true, decide_eq_true_eq] at hblank
  rcases hblank with ((rfl | rfl) | rfl) | rfl <;> revert h <;> decide

theorem isBlank_denotes {n : List Char} {value : Float} (h : Denotes n value) :
    ∀ c ∈ (n ++ rest).head?, isBlank c = false := by
  intro c hc
  cases h with
  | decimal hs hm he =>
      rw [List.append_assoc, List.append_assoc] at hc
      exact isBlank_of_isNumeralChar (isNumeralChar_head? hs hm c hc)
  | nan h => exact isBlank_of_toLower (head?_word h (.inl rfl) c hc)
  | infinite h => exact isBlank_of_toLower (head?_word h (.inr rfl) c hc)

end RuleInduction.Numeral
