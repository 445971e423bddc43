import RuleInduction.Literal
import RuleInduction.Proofs.Line

namespace RuleInduction

open Text Line

section Separable

variable {α : Type} {write : α → List Char} {Legible : α → Prop} {Ends : List Char → Prop}
  {a : α} {as bs : List α} {rest rest' : List Char}

def Follows (Ends : List Char → Prop) (rest : List Char) : Prop :=
  Ends rest ∨ ∃ tail, rest = ',' :: tail

structure Separable (write : α → List Char) (Legible : α → Prop) (Ends : List Char → Prop) :
    Prop where
  cancel : ∀ {a b : α} {rest rest' : List Char}, Legible a → Legible b → Follows Ends rest →
    Follows Ends rest' → write a ++ rest = write b ++ rest' → a = b ∧ rest = rest'
  not_ends_item : ∀ {a : α} {rest : List Char}, Legible a → ¬ Ends (write a ++ rest)
  not_ends_comma : ∀ {rest : List Char}, ¬ Ends (',' :: rest)

def writeMore (write : α → List Char) (as : List α) : List Char :=
  as.flatMap fun a => ',' :: ' ' :: write a

theorem writeMore_cons : writeMore write (a :: as) = ',' :: ' ' :: (write a ++ writeMore write as) :=
  rfl

theorem intercalate_eq_writeMore :
    [',', ' '].intercalate ((a :: as).map write) = write a ++ writeMore write as := by
  induction as generalizing a with
  | nil => simp [writeMore]
  | cons b as ih =>
      rw [List.map_cons, List.map_cons, List.intercalate_cons_cons, ← List.map_cons, ih,
        writeMore_cons, List.append_assoc]
      rfl

theorem follows_writeMore (hrest : Ends rest) : Follows Ends (writeMore write as ++ rest) := by
  cases as with
  | nil => exact .inl hrest
  | cons a as => exact .inr ⟨_, rfl⟩

namespace Separable

variable (h : Separable write Legible Ends)
include h

theorem eq_nil_of_ends_more (hends : Ends (writeMore write as ++ rest)) : as = [] := by
  cases as with
  | nil => rfl
  | cons a as => exact absurd hends h.not_ends_comma

theorem eq_nil_of_ends (has : ∀ a ∈ as, Legible a)
    (hends : Ends ([',', ' '].intercalate (as.map write) ++ rest)) : as = [] := by
  cases as with
  | nil => rfl
  | cons a as =>
      rw [intercalate_eq_writeMore, List.append_assoc] at hends
      exact absurd hends (h.not_ends_item (has a List.mem_cons_self))

theorem writeMore_cancel (has : ∀ a ∈ as, Legible a) (hbs : ∀ b ∈ bs, Legible b)
    (hrest : Ends rest) (hrest' : Ends rest')
    (heq : writeMore write as ++ rest = writeMore write bs ++ rest') : as = bs ∧ rest = rest' := by
  induction as generalizing bs with
  | nil =>
      change rest = _ at heq
      cases h.eq_nil_of_ends_more (heq ▸ hrest)
      exact ⟨rfl, heq⟩
  | cons a as ih =>
      cases bs with
      | nil =>
          change _ = rest' at heq
          cases h.eq_nil_of_ends_more (heq.symm ▸ hrest')
      | cons b bs =>
          rw [List.forall_mem_cons] at has hbs
          simp only [writeMore_cons, List.cons_append, List.append_assoc, List.cons.injEq,
            true_and] at heq
          obtain ⟨rfl, htail⟩ :=
            h.cancel has.1 hbs.1 (follows_writeMore hrest) (follows_writeMore hrest') heq
          obtain ⟨rfl, hends⟩ := ih has.2 hbs.2 htail
          exact ⟨rfl, hends⟩

theorem intercalate_cancel (has : ∀ a ∈ as, Legible a) (hbs : ∀ b ∈ bs, Legible b)
    (hrest : Ends rest) (hrest' : Ends rest')
    (heq : [',', ' '].intercalate (as.map write) ++ rest =
      [',', ' '].intercalate (bs.map write) ++ rest') : as = bs ∧ rest = rest' := by
  cases as with
  | nil =>
      change rest = _ at heq
      cases h.eq_nil_of_ends hbs (heq ▸ hrest)
      exact ⟨rfl, heq⟩
  | cons a as =>
      cases bs with
      | nil =>
          change _ = rest' at heq
          cases h.eq_nil_of_ends has (heq.symm ▸ hrest')
      | cons b bs =>
          rw [List.forall_mem_cons] at has hbs
          rw [intercalate_eq_writeMore, intercalate_eq_writeMore, List.append_assoc,
            List.append_assoc] at heq
          obtain ⟨rfl, htail⟩ :=
            h.cancel has.1 hbs.1 (follows_writeMore hrest) (follows_writeMore hrest') heq
          obtain ⟨rfl, hends⟩ := h.writeMore_cancel has.2 hbs.2 hrest hrest' htail
          exact ⟨rfl, hends⟩

end Separable

end Separable

theorem toList_separator : ", ".toList = [',', ' '] := rfl

theorem Text.IsIdentifier.exists_cons {cs : List Char} (h : IsIdentifier cs) :
    ∃ c tail, cs = c :: tail ∧ isIdentChar c = true := by
  cases cs with
  | nil => exact absurd rfl h.1
  | cons c tail => exact ⟨c, tail, rfl, h.2 c List.mem_cons_self⟩

namespace Term

variable {s t : Term} {rest rest' : List Char}

def Legible : Term → Prop
  | var x => IsIdentifier x.toList
  | const v => '\"' ∉ v.toList

instance : (t : Term) → Decidable t.Legible
  | var x => inferInstanceAs (Decidable (IsIdentifier x.toList))
  | const v => inferInstanceAs (Decidable ('\"' ∉ v.toList))

theorem legible_ofValue (value : String) : (ofValue value).Legible := by
  simp [ofValue, Legible]

theorem toList_render_const (v : String) : (const v).render.toList = '\"' :: (v.toList ++ ['\"']) := by
  simp [render]

theorem isIdentChar_quote : isIdentChar '\"' = false := by
  decide +kernel

theorem exists_cons_of_legible (h : t.Legible) :
    ∃ c tail, t.render.toList = c :: tail ∧ (isIdentChar c = true ∨ c = '\"') := by
  cases t with
  | var x =>
      obtain ⟨c, tail, hx, hc⟩ := IsIdentifier.exists_cons h
      exact ⟨c, tail, hx, .inl hc⟩
  | const v => exact ⟨_, _, toList_render_const v, .inr rfl⟩

theorem render_var_ne_const {x v : String} (h : (var x).Legible) :
    (var x).render.toList ++ rest ≠ (const v).render.toList ++ rest' := by
  obtain ⟨c, tail, hx, hc⟩ := IsIdentifier.exists_cons h
  rw [render, hx, toList_render_const]
  intro heq
  rw [(List.cons.inj heq).1, isIdentChar_quote] at hc
  cases hc

theorem ne_quote_of_legible {v : String} (h : (const v).Legible) :
    ∀ c ∈ v.toList, (c != '\"') = true :=
  fun _ hc => bne_iff_ne.2 (ne_of_mem_of_not_mem hc h)

-- A name ends only before a delimiter, while a quote ends a constant whatever comes next.
theorem render_cancel (hs : s.Legible) (ht : t.Legible) (hrest : Closed rest) (hrest' : Closed rest')
    (heq : s.render.toList ++ rest = t.render.toList ++ rest') : s = t ∧ rest = rest' := by
  cases s with
  | var x =>
      cases t with
      | var y =>
          obtain ⟨hname, htail⟩ :=
            append_exact hs.2 ht.2 hrest.isIdentChar_eq hrest'.isIdentChar_eq heq
          exact ⟨congrArg var (String.toList_inj.1 hname), htail⟩
      | const w => exact absurd heq (render_var_ne_const hs)
  | const v =>
      cases t with
      | var y => exact absurd heq.symm (render_var_ne_const ht)
      | const w =>
          simp only [toList_render_const, List.cons_append, List.append_assoc, List.cons.injEq,
            true_and] at heq
          obtain ⟨hname, htail⟩ := append_exact (ne_quote_of_legible hs) (ne_quote_of_legible ht)
            (forall_head?_cons rfl) (forall_head?_cons rfl) heq
          exact ⟨congrArg const (String.toList_inj.1 hname), List.tail_eq_of_cons_eq htail⟩

end Term

namespace Literal

variable {l m : Literal} {rest rest' : List Char}

structure Legible (l : Literal) : Prop where
  predicate : IsIdentifier l.predicate.toList
  arguments : ∀ t ∈ l.arguments, t.Legible

instance (l : Literal) : Decidable l.Legible :=
  decidable_of_iff (IsIdentifier l.predicate.toList ∧ ∀ t ∈ l.arguments, t.Legible)
    ⟨fun h => ⟨h.1, h.2⟩, fun h => ⟨h.predicate, h.arguments⟩⟩

def AtParenthesis (cs : List Char) : Prop :=
  ∃ tail, cs = ')' :: tail

theorem closed_of_follows (h : Follows AtParenthesis rest) : Closed rest := by
  rcases h with ⟨tail, rfl⟩ | ⟨tail, rfl⟩
  · exact closed_of_delimiter (.inr (.inr rfl))
  · exact closed_of_delimiter (.inr (.inl rfl))

theorem separable_arguments :
    Separable (fun t : Term => t.render.toList) Term.Legible AtParenthesis where
  cancel hs ht hrest hrest' :=
    Term.render_cancel hs ht (closed_of_follows hrest) (closed_of_follows hrest')
  not_ends_item ht := by
    rintro ⟨tail, heq⟩
    obtain ⟨c, more, hrender, hc⟩ := Term.exists_cons_of_legible ht
    rw [hrender] at heq
    cases heq
    exact absurd hc (by decide +kernel)
  not_ends_comma := by
    rintro rest ⟨tail, heq⟩
    cases heq

theorem toList_render (l : Literal) : l.render.toList = l.predicate.toList ++ '(' ::
    ([',', ' '].intercalate (l.arguments.map fun t => t.render.toList) ++ [')']) := by
  simp [render, String.toList_intercalate, toList_separator, Function.comp_def]

theorem render_cancel (hl : l.Legible) (hm : m.Legible)
    (heq : l.render.toList ++ rest = m.render.toList ++ rest') : l = m ∧ rest = rest' := by
  simp only [toList_render, List.append_assoc, List.cons_append, List.nil_append] at heq
  have hopen : isIdentChar '(' = false := by decide +kernel
  obtain ⟨hname, htail⟩ := append_exact hl.predicate.2 hm.predicate.2 (forall_head?_cons hopen)
    (forall_head?_cons hopen) heq
  obtain ⟨hargs, hends⟩ := separable_arguments.intercalate_cancel hl.arguments hm.arguments
    ⟨rest, rfl⟩ ⟨rest', rfl⟩ (List.tail_eq_of_cons_eq htail)
  cases l
  cases m
  cases String.toList_inj.1 hname
  cases hargs
  exact ⟨rfl, List.tail_eq_of_cons_eq hends⟩

end Literal

namespace Clause

variable {c d : Clause}

def Legible (c : Clause) : Prop :=
  ∀ l ∈ c, l.Legible

instance (c : Clause) : Decidable c.Legible :=
  inferInstanceAs (Decidable (∀ l ∈ c, l.Legible))

theorem separable_literals :
    Separable (fun l : Literal => l.render.toList) Literal.Legible (· = []) where
  cancel hl hm _ _ := Literal.render_cancel hl hm
  not_ends_item _ := by simp [Literal.toList_render]
  not_ends_comma := List.cons_ne_nil _ _

theorem toList_render (c : Clause) :
    c.render.toList = [',', ' '].intercalate (c.map fun l => l.render.toList) := by
  simp [render, String.toList_intercalate, toList_separator, Function.comp_def]

theorem eq_of_render_eq (hc : c.Legible) (hd : d.Legible) (heq : c.render = d.render) : c = d := by
  rw [← String.toList_inj, toList_render, toList_render] at heq
  exact (separable_literals.intercalate_cancel hc hd rfl rfl (congrArg (· ++ []) heq)).1

theorem render_eq_iff_of_legible :
    (∀ value, (Term.ofValue value).Legible) ∧
      ∀ c d : Clause, c.Legible → d.Legible → (c.render = d.render ↔ c = d) :=
  ⟨Term.legible_ofValue, fun _ _ hc hd => ⟨eq_of_render_eq hc hd, congrArg render⟩⟩

-- The brackets and the comma of the first clause stand inside the constant of the second one.
theorem render_ne_of_separators_in_constant :
    let c : Clause := [⟨"p", []⟩, ⟨"q", [.ofValue ""]⟩]
    let d : Clause := [⟨"p", [.ofValue "), q("]⟩]
    c.Legible ∧ d.Legible ∧ c.render ≠ d.render := by
  intro c d
  have hc : c.Legible := by decide +kernel
  have hd : d.Legible := by decide +kernel
  exact ⟨hc, hd, mt (render_eq_iff_of_legible.2 c d hc hd).1 (by decide +kernel)⟩

end Clause

end RuleInduction
