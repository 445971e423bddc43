import Mathlib.Data.List.ProdSigma
import Mathlib.Data.List.Zip
import RuleInduction.ClauseSearch
import RuleInduction.Proofs.Candidate

namespace RuleInduction

theorem Scope.mem_entries_foldl_insert {scope : Scope} {entries : List (String × String)}
    {e : String × String} :
    e ∈ (entries.foldl (fun scope e => scope.insert e.1 e.2) scope).entries ↔
      e ∈ scope.entries ∨ e ∈ entries := by
  induction entries generalizing scope with
  | nil => simp
  | cons d entries ih =>
      rw [List.foldl_cons, ih, mem_entries_insert, List.mem_cons, or_assoc]

theorem mem_zip_swap {α β : Type} {xs : List α} {ys : List β} {a : α} {b : β} :
    (a, b) ∈ xs.zip ys ↔ (b, a) ∈ ys.zip xs := by
  rw [← List.zip_swap, List.mem_map_swap]

theorem eq_of_mem_zip {α β : Type} [DecidableEq α] {xs : List α} {ys : List β} {a : α} {b b' : β}
    (hcount : xs.count a ≤ 1) (h : (a, b) ∈ xs.zip ys) (h' : (a, b') ∈ xs.zip ys) : b = b' := by
  induction xs generalizing ys with
  | nil => cases h
  | cons x xs ih =>
      cases ys with
      | nil => cases h
      | cons y ys =>
          rw [List.zip_cons_cons, List.mem_cons] at h h'
          by_cases hx : x = a
          · subst hx
            have hnone : x ∉ xs := by
              rw [List.count_cons_self] at hcount
              exact List.count_eq_zero.1 (Nat.le_zero.1 (Nat.le_of_succ_le_succ hcount))
            rcases h with h | h
            · rcases h' with h' | h'
              · cases h
                cases h'
                rfl
              · exact absurd (List.of_mem_zip h').1 hnone
            · exact absurd (List.of_mem_zip h).1 hnone
          · rw [List.count_cons_of_ne hx] at hcount
            have hne {z : β} : (a, z) ≠ (x, y) := fun he => hx (congrArg Prod.fst he).symm
            exact ih hcount (h.resolve_left hne) (h'.resolve_left hne)

def SearchSpace.places (space : SearchSpace) (l : Literal) : List (Term × String) :=
  l.arguments.zip (space.signatures.types l.predicate)

namespace ClauseSearch

variable {s : ClauseSearch} {x type : String}

def surroundings (s : ClauseSearch) (body : Scope) : Surroundings :=
  ⟨s.space.constants, s.headScope, body⟩

theorem mem_headScope :
    (type, x) ∈ s.headScope.entries ↔ (x, type) ∈ s.head.zip s.space.targetTypes := by
  rw [headScope, Scope.mem_entries_foldl_insert, mem_zip_swap]
  exact or_iff_right List.not_mem_nil

theorem contains_headScope (h : s.head.length = s.space.targetTypes.length) :
    s.headScope.contains x = true ↔ x ∈ s.head := by
  simp only [Scope.contains_iff, mem_headScope]
  constructor
  · rintro ⟨type, hx⟩
    exact (List.of_mem_zip hx).1
  · intro hx
    exact exists_mem_zip h hx

theorem mem_bindBody {l : Literal} {body : Scope} :
    (type, x) ∈ (s.bindBody l body).entries ↔ (type, x) ∈ body.entries ∨
      (Term.var x, type) ∈ s.space.places l ∧ x ≠ Term.anonymousName ∧
        s.headScope.contains x = false := by
  simp only [bindBody, SearchSpace.places]
  generalize l.arguments.zip (s.space.signatures.types l.predicate) = places
  induction places generalizing body with
  | nil => simp
  | cons p places ih =>
      obtain ⟨t, τ⟩ := p
      rw [List.foldl_cons, ih, List.mem_cons, or_and_right, ← or_assoc]
      refine or_congr_left ?_
      cases hn : t.named? with
      | none =>
          refine (or_iff_left ?_).symm
          rintro ⟨h, hx, _⟩
          cases h
          rw [Term.named?_eq_some.2 ⟨rfl, hx⟩] at hn
          cases hn
      | some y =>
          obtain ⟨rfl, hy⟩ := Term.named?_eq_some.1 hn
          simp only [Prod.mk.injEq, Term.var.injEq]
          split
          · next hhead =>
              refine (or_iff_left ?_).symm
              rintro ⟨⟨rfl, _⟩, _, hx⟩
              rw [hhead] at hx
              cases hx
          · next hhead =>
              rw [Scope.mem_entries_insert, Prod.mk.injEq]
              refine or_congr_right ⟨?_, ?_⟩
              · rintro ⟨rfl, rfl⟩
                exact ⟨⟨rfl, rfl⟩, hy, Bool.eq_false_iff.2 hhead⟩
              · rintro ⟨⟨rfl, rfl⟩, _⟩
                exact ⟨rfl, rfl⟩

end ClauseSearch

end RuleInduction
