import Mathlib.Data.List.Forall2
import RuleInduction.Proofs.Matching.Narrowing
import RuleInduction.Proofs.Store

namespace RuleInduction

namespace View

def Within (v v' : View) : Prop :=
  ∀ p, tuples (v.rows p) ⊆ tuples (v'.rows p)

def extend (v : View) (facts : List Fact) : View :=
  ⟨v.store.extend facts, v.hidden⟩

variable {v v' : View}

theorem within_of_sublist (h : ∀ p, (v.rows p).Sublist (v'.rows p)) : v.Within v' :=
  fun p => ((h p).map Row.values).subset

theorem rows_sublist_store (v : View) (p : Predicate) : (v.rows p).Sublist (v.store.rows p) := by
  cases h : v.hiddenIndex? p with
  | none => rw [rows_of_shown h]
  | some i =>
      rw [rows_of_hidden h]
      exact List.eraseIdx_sublist _ i

theorem rows_sublist_extend (v : View) (facts : List Fact) (p : Predicate) :
    (v.rows p).Sublist ((v.extend facts).rows p) := by
  have hrows := Store.rows_extend v.store facts p
  cases h : v.hiddenIndex? p with
  | none =>
      have h' : (v.extend facts).hiddenIndex? p = none := h
      rw [rows_of_shown h, rows_of_shown h', extend, hrows]
      exact List.sublist_append_left _ _
  | some i =>
      have h' : (v.extend facts).hiddenIndex? p = some i := h
      rw [rows_of_hidden h, rows_of_hidden h', extend, hrows, List.eraseIdx_append]
      split
      · exact List.sublist_append_left _ _
      · exact (List.eraseIdx_sublist _ i).trans (List.sublist_append_left _ _)

theorem within_view (v : View) : v.Within v.store.view :=
  within_of_sublist fun p => rows_view v.store p ▸ rows_sublist_store v p

theorem within_extend (v : View) (facts : List Fact) : v.Within (v.extend facts) :=
  within_of_sublist (rows_sublist_extend v facts)

end View

def Fact.Among (facts facts' : List Fact) : Prop :=
  ∀ f ∈ facts, ∃ f' ∈ facts', f'.predicate = f.predicate ∧ f'.arguments = f.arguments

theorem Fact.Among.within_compile {facts facts' : List Fact} (h : Among facts facts') :
    (Store.compile facts).view.Within (Store.compile facts').view := by
  intro p args hargs
  rw [View.rows_view, Store.rows_compile, tuples_map_row] at hargs ⊢
  obtain ⟨f, hf, rfl⟩ := List.mem_map.1 hargs
  obtain ⟨hf, hp⟩ := List.mem_filter.1 hf
  obtain ⟨f', hf', hp', hargs'⟩ := h f hf
  refine hargs' ▸ List.mem_map_of_mem (List.mem_filter.2 ⟨hf', ?_⟩)
  rwa [hp']

variable {v v' : View} {b b' : Bindings}

theorem ones_zeros_le {m m' n : Nat} (hm : m ≤ m') (hn : m' ≤ n) :
    List.Forall₂ (· ≤ ·) (List.replicate m (1.0 : Float) ++ List.replicate (n - m) 0.0)
      (List.replicate m' (1.0 : Float) ++ List.replicate (n - m') 0.0) := by
  have hone : (1.0 : Float) ≤ 1.0 := by decide
  have hrise : (0.0 : Float) ≤ 1.0 := by decide
  have hzero : (0.0 : Float) ≤ 0.0 := by decide
  refine List.forall₂_iff_get.2 ⟨?_, fun i h h' => ?_⟩
  · simp only [List.length_append, List.length_replicate]
    omega
  · simp only [List.get_eq_getElem, List.getElem_append, List.length_replicate,
      List.getElem_replicate]
    rcases Nat.lt_or_ge i m with hi | hi
    · rw [dif_pos hi, dif_pos (Nat.lt_of_lt_of_le hi hm)]
      exact hone
    · rw [dif_neg (Nat.not_lt.2 hi)]
      split
      · exact hrise
      · exact hzero

theorem strengths_le_of_within (hv : v.Within v') (hb : b.Within b') (c : Clause) :
    List.Forall₂ (· ≤ ·) (binaryStrengths v b c) (binaryStrengths v' b' c) := by
  rw [binaryStrengths_eq, binaryStrengths_eq]
  exact ones_zeros_le (progress_mono (fun l _ => hv l.predicate) hb) (progress_le v' b' c)

theorem strengths_eq_of_within (hv : v.Within v') (hv' : v'.Within v) (hb : b.Within b')
    (hb' : b'.Within b) (c : Clause) : binaryStrengths v b c = binaryStrengths v' b' c :=
  binaryStrengths_congr (fun l _ => hv l.predicate) (fun l _ => hv' l.predicate) hb hb'

theorem binaryStrengths_mono (v v' : View) (b b' : Bindings) (c : Clause) (hv : v.Within v')
    (hb : b.Within b') :
    List.Forall₂ (· ≤ ·) (binaryStrengths v b c) (binaryStrengths v' b' c) ∧
    (v'.Within v → b'.Within b → binaryStrengths v b c = binaryStrengths v' b' c) ∧
    (∀ facts, List.Forall₂ (· ≤ ·) (binaryStrengths v b c)
      (binaryStrengths (v.extend facts) b c)) ∧
    List.Forall₂ (· ≤ ·) (binaryStrengths v b c) (binaryStrengths v.store.view b c) ∧
    ∀ facts facts', Fact.Among facts facts' → Fact.Among facts' facts →
      binaryStrengths (Store.compile facts).view b c =
        binaryStrengths (Store.compile facts').view b c := by
  refine ⟨strengths_le_of_within hv hb c, ?_, ?_, ?_, ?_⟩
  · intro hv' hb'
    exact strengths_eq_of_within hv hv' hb hb' c
  · intro facts
    exact strengths_le_of_within (v.within_extend facts) (.refl b) c
  · exact strengths_le_of_within v.within_view (.refl b) c
  · intro facts facts' h h'
    exact strengths_eq_of_within h.within_compile h'.within_compile (.refl b) (.refl b) c

theorem binaryStrengths_mono_of_birds :
    let v := (Store.compile [⟨2.0, "bird", ["tweety"]⟩, ⟨1.0, "bird", ["rio"]⟩]).viewWithout
      ⟨"bird", 1⟩
    let v' := (Store.compile [⟨0.5, "flies", ["tweety"]⟩, ⟨1.0, "bird", ["tweety"]⟩,
      ⟨1.0, "bird", ["tweety"]⟩]).view
    let b := Bindings.ofHead ["X"] ["tweety"]
    let c : Clause := [⟨"bird", [.var "X"]⟩, ⟨"flies", [.var "X"]⟩]
    v.Within v' ∧ b.Within ∅ ∧ binaryStrengths v b c = [1.0, 0.0] ∧
      binaryStrengths v' ∅ c = [1.0, 1.0] ∧
      List.Forall₂ (· ≤ ·) (binaryStrengths v b c) (binaryStrengths v' ∅ c) := by
  intro v v' b c
  have hv : v.Within v' := by
    intro p
    by_cases hp : "bird" = p
    · subst hp
      simp [v, v', View.rows_viewWithout, Store.rows_compile, tuples, Fact.row]
    · have hnone : v.rows p = [] := by
        refine List.sublist_nil.1 ((v.rows_sublist_store p).trans ?_)
        simp [v, Store.viewWithout, Store.rows_compile, hp]
      rw [hnone]
      exact List.nil_subset _
  have hb : b.Within ∅ := by
    intro x values hget
    simp [Bindings.get?] at hget
  exact ⟨hv, hb, rfl, rfl, (binaryStrengths_mono v v' b ∅ c hv hb).1⟩

end RuleInduction
