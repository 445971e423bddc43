import RuleInduction.Proofs.Decimal.Numeral

namespace RuleInduction.Numeral

variable {cs ds : List Char}

theorem unfinished_of_exponent (h : exponent? cs = none) :
    ∃ letter tail, cs = letter :: tail ∧ ExponentLetter letter ∧
      (digits (sign tail).2).1 = [] := by
  cases cs with
  | nil => cases h
  | cons letter tail =>
      by_cases hletter : ExponentLetter letter
      · rw [exponent?_letter hletter] at h
        split at h
        · next hdigits => exact ⟨letter, tail, rfl, hletter, hdigits⟩
        · cases h
      · rw [exponent?_cons_other hletter] at h
        cases h

inductive Unfinished : List Char → Prop
  | intro {s m tail whole fraction : List Char} {negative : Bool} {letter : Char}
      (hs : Sign s negative) (hm : Mantissa m whole fraction) (hletter : ExponentLetter letter)
      (htail : (digits (sign tail).2).1 = []) : Unfinished (s ++ (m ++ letter :: tail))

theorem committed_iff_unfinished :
    (∃ stop, read cs = .error stop ∧ stop.committed = true) ↔ Unfinished cs := by
  constructor
  · rintro ⟨stop, h, hstop⟩
    simp only [read] at h
    split at h
    · next whole fraction rest hmantissa =>
        split at h
        · cases h
        · next hexponent =>
            obtain ⟨s, hs, hbody⟩ := sign_of_read (Prod.eta (sign cs)).symm
            obtain ⟨m, hm, hrest⟩ := mantissa_of_read hmantissa
            obtain ⟨letter, tail, rfl, hletter, htail⟩ := unfinished_of_exponent hexponent
            rw [hbody, hrest]
            exact .intro hs hm hletter htail
    · split at h
      · cases h
      · split at h
        · cases h
        · cases h
          cases hstop
  · rintro h
    refine ⟨⟨cs, true⟩, ?_, rfl⟩
    cases h with
    | intro hs hm hletter htail =>
        simp only [read, sign_exact hs (not_sign_of_mantissa hm),
          mantissa_exact hm (afterDigits_letter hletter), exponent?_letter hletter, htail, if_true]

def OpensExponent (cs : List Char) : Prop :=
  ∃ ds letter tail, cs = ds ++ letter :: tail ∧ ds ≠ [] ∧ Digits ds ∧ ExponentLetter letter ∧
    ∀ c ∈ tail.head?, c.isDigit = false

theorem cons_within {name tail more : List Char} {c : Char} (hds : Digits ds)
    (h : name ++ tail = ds ++ c :: more) (htail : Foreign tail) (hc : isNumeralChar c = true) :
    ∃ inner, name = ds ++ c :: inner ∧ more = inner ++ tail := by
  rcases List.append_eq_append_iff.1 h with ⟨inner, rfl, rfl⟩ | ⟨inner, rfl, hmore⟩
  · cases inner with
    | nil => exact absurd hc (ne_true_of_eq_false (htail c rfl))
    | cons d ds =>
        have hd : isNumeralChar d = true := isNumeralChar_of_isDigit (hds d (by simp))
        exact absurd hd (ne_true_of_eq_false (htail d rfl))
  · cases inner with
    | nil =>
        rw [List.nil_append] at hmore
        subst hmore
        exact absurd hc (ne_true_of_eq_false (htail c rfl))
    | cons d ds =>
        cases hmore
        exact ⟨ds, rfl, rfl⟩

theorem digits_fst_eq_nil_iff : (digits cs).1 = [] ↔ ∀ c ∈ cs.head?, c.isDigit = false := by
  cases cs with
  | nil => simp [digits]
  | cons c tail => cases h : c.isDigit <;> simp [digits, h]

theorem head?_name {name tail : List Char} (hname : Line.Word name) (htail : Foreign tail) :
    ∀ c ∈ (name ++ tail).head?, (c ≠ '-' ∧ c ≠ '+') ∧ c ≠ '.' := by
  cases name with
  | nil => exact fun c hc => ⟨htail.not_sign c hc, (htail.afterDigits c hc).2⟩
  | cons d ds =>
      have hd := hname d List.mem_cons_self
      refine Line.forall_head?_cons ⟨⟨?_, ?_⟩, ?_⟩ <;> rintro rfl <;> revert hd <;> decide +kernel

theorem digits_sign_append_iff {name tail : List Char} (hname : Line.Word name)
    (htail : Foreign tail) :
    (digits (sign (name ++ tail)).2).1 = [] ↔ ∀ c ∈ name.head?, c.isDigit = false := by
  rw [sign_absent fun c hc => (head?_name hname htail c hc).1, digits_fst_eq_nil_iff]
  cases name with
  | nil => exact ⟨fun _ _ hc => (nomatch hc), fun _ => htail.isDigit_eq⟩
  | cons d ds => rfl

-- A name has no sign and no point, so of the shapes of a number only bare digits stand at its start.
theorem unfinished_append_iff {name tail : List Char} (hname : Line.Word name)
    (htail : Foreign tail) : Unfinished (name ++ tail) ↔ OpensExponent name := by
  have hhead := head?_name hname htail
  constructor
  · intro h
    generalize hcs : name ++ tail = cs at h hhead
    cases h with
    | intro hs hm hletter hmore =>
        cases hs with
        | plus => exact absurd rfl (hhead '+' rfl).1.2
        | minus => exact absurd rfl (hhead '-' rfl).1.1
        | absent =>
            cases hm with
            | whole hne hds =>
                obtain ⟨inner, rfl, rfl⟩ := cons_within hds hcs htail (isNumeralChar_of_letter hletter)
                have hinner : Line.Word inner := fun c hc => hname c (by simp [hc])
                exact ⟨_, _, inner, rfl, hne, hds, hletter,
                  (digits_sign_append_iff hinner htail).1 hmore⟩
            | point hne hwhole =>
                rw [List.nil_append, List.append_assoc, List.cons_append] at hcs
                obtain ⟨inner, rfl, _⟩ := cons_within hwhole hcs htail rfl
                have hpoint := hname '.' (by simp)
                exact absurd hpoint (by decide +kernel)
            | fraction => exact absurd rfl (hhead '.' rfl).2
  · rintro ⟨ds, letter, inner, rfl, hne, hds, hletter, hinner⟩
    have hword : Line.Word inner := fun c hc => hname c (by simp [hc])
    have hmore := (digits_sign_append_iff hword htail).2 hinner
    rw [List.append_assoc, List.cons_append]
    exact .intro .absent (.whole hne hds) hletter hmore

end RuleInduction.Numeral
