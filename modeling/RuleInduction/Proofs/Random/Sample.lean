import RuleInduction.Random.Sample

namespace RuleInduction.Random

variable {G : Type} [RandomSource G] {α : Type} {n i size : Nat} {places places' : List Nat}

structure Distinct (n : Nat) (places : List Nat) : Prop where
  nodup : places.Nodup
  lt : ∀ i ∈ places, i < n

structure Rising (n : Nat) (places : List Nat) : Prop where
  increasing : places.Pairwise (· < ·)
  lt : ∀ i ∈ places, i < n

theorem Distinct.perm (h : Distinct n places) (hperm : places'.Perm places) :
    Distinct n places' :=
  ⟨hperm.nodup_iff.2 h.nodup, fun i hi => h.lt i (hperm.mem_iff.1 hi)⟩

theorem Distinct.sublist (h : Distinct n places) (hsub : places'.Sublist places) :
    Distinct n places' :=
  ⟨h.nodup.sublist hsub, fun i hi => h.lt i (hsub.subset hi)⟩

theorem Distinct.mono {m : Nat} (h : Distinct n places) (hle : n ≤ m) : Distinct m places :=
  ⟨h.nodup, fun i hi => Nat.lt_of_lt_of_le (h.lt i hi) hle⟩

theorem Distinct.snoc (h : Distinct n places) (hi : i ∉ places) (hlt : i < n) :
    Distinct n (places ++ [i]) := by
  constructor
  · refine List.nodup_append.2 ⟨h.nodup, List.pairwise_singleton _ i, ?_⟩
    intro a ha b hb heq
    rw [List.mem_singleton.1 hb] at heq
    exact hi (heq ▸ ha)
  · intro j hj
    rcases List.mem_append.1 hj with hj | hj
    · exact h.lt j hj
    · exact List.mem_singleton.1 hj ▸ hlt

theorem distinct_nil (n : Nat) : Distinct n [] :=
  ⟨List.nodup_nil, List.forall_mem_nil _⟩

theorem distinct_range (n : Nat) : Distinct n (List.range n) :=
  ⟨List.nodup_range, fun _ => List.mem_range.1⟩

section Drawing

-- A place that is taken gives way to the greatest one allowed, which none of the earlier draws
-- could reach.
theorem distinct_pickDistinct {j : Nat} (h : Distinct j places) (g : Option G) :
    Distinct (j + n) (pickDistinct n j places g).1 := by
  induction n generalizing j places g with
  | zero => exact h
  | succ n ih =>
      have hdraw : (below (j + 1) g).1 < j + 1 := below_lt (Nat.succ_pos j) g
      have hmore := h.mono (Nat.le_succ j)
      simp only [pickDistinct, Nat.add_comm n 1, ← Nat.add_assoc]
      refine ih ?_ _
      split
      · exact hmore.snoc (fun hj => Nat.lt_irrefl j (h.lt j hj)) (Nat.lt_succ_self j)
      · next ht => exact hmore.snoc ht hdraw

theorem length_pickDistinct (n j : Nat) (places : List Nat) (g : Option G) :
    (pickDistinct n j places g).1.length = places.length + n := by
  induction n generalizing j places g with
  | zero => rfl
  | succ n ih =>
      rw [pickDistinct, ih, List.length_append, List.length_singleton]
      omega

theorem shuffleFront_perm (n i : Nat) (places : Array Nat) (g : Option G) :
    (shuffleFront n i places g).1.Perm places := by
  induction n generalizing i places g with
  | zero => exact Array.Perm.refl _
  | succ n ih =>
      simp only [shuffleFront]
      exact (ih _ _ _).trans (swapIfInBounds_perm _ _ _)

variable {length : Nat}

theorem free?_eq_some {word place : Nat} (hpos : 0 < length)
    (hword : word < (width length).size) (h : free? length places word = some place) :
    place < length ∧ place ∉ places := by
  obtain ⟨hscaled, hfree⟩ := Option.filter_eq_some_iff.1 h
  exact ⟨scaled?_lt hpos hword hscaled, of_decide_eq_true hfree⟩

theorem distinct_pickFree? {g g' : G} (h : Distinct length places)
    (hroom : places.length + n ≤ length) (hpick : pickFree? length n places g = some (places', g')) :
    Distinct length places' ∧ places'.length = places.length + n := by
  induction n generalizing places g with
  | zero =>
      cases hpick
      exact ⟨h, rfl⟩
  | succ n ih =>
      obtain ⟨⟨place, g₁⟩, hdraw, hpick⟩ := Option.bind_eq_some_iff.1 hpick
      obtain ⟨g₀, hfree, -⟩ := exists_word_of_draw? hdraw
      obtain ⟨hlt, hnew⟩ := free?_eq_some (by omega) (word_lt _ g₀) hfree
      have hsnoc : (places ++ [place]).length = places.length + 1 := List.length_append
      obtain ⟨hdistinct, hlength⟩ := ih (h.snoc hnew hlt) (by omega) hpick
      exact ⟨hdistinct, by omega⟩

variable (hsize : size ≤ length) (g : Option G)

include hsize

theorem sampleInPlace_spec : Distinct length (sampleInPlace length size g).1 ∧
    (sampleInPlace length size g).1.length = size := by
  have hperm : (shuffleFront size 0 (Array.range length) g).1.toList.Perm (List.range length) :=
    Array.toList_range ▸ (shuffleFront_perm size 0 _ g).toList
  refine ⟨((distinct_range length).perm hperm).sublist (List.take_sublist _ _), ?_⟩
  rw [sampleInPlace, List.length_take, hperm.length_eq, List.length_range, Nat.min_eq_left hsize]

theorem samplePicked_spec : Distinct length (samplePicked length size g).1 ∧
    (samplePicked length size g).1.length = size := by
  have hdistinct : Distinct length (pickDistinct size (length - size) [] g).1 := by
    have h := distinct_pickDistinct (n := size) (j := length - size)
      (distinct_nil _) g
    rwa [Nat.sub_add_cancel hsize] at h
  have hlength := length_pickDistinct size (length - size) [] g
  rw [List.length_nil, Nat.zero_add] at hlength
  simp only [samplePicked]
  split
  · exact ⟨hdistinct, hlength⟩
  · have hperm := shuffle_perm (pickDistinct size (length - size) [] g).1
      (pickDistinct size (length - size) [] g).2
    exact ⟨hdistinct.perm hperm, hperm.length_eq.trans hlength⟩

theorem sampleFree_spec : Distinct length (sampleFree length size g).1 ∧
    (sampleFree length size g).1.length = size := by
  rw [sampleFree]
  cases hpick : g.bind (pickFree? length size []) with
  | none => exact ⟨(distinct_range size).mono hsize, List.length_range⟩
  | some r =>
      obtain ⟨g, rfl, hpick⟩ := Option.bind_eq_some_iff.1 hpick
      obtain ⟨hdistinct, hlength⟩ :=
        distinct_pickFree? (distinct_nil length) (by rwa [List.length_nil, Nat.zero_add]) hpick
      exact ⟨hdistinct, hlength.trans (Nat.zero_add size)⟩

theorem sample_spec :
    Distinct length (sample length size g).1 ∧ (sample length size g).1.length = size := by
  rw [sample]
  cases sampleMethod length size with
  | inPlace => exact sampleInPlace_spec hsize g
  | picked => exact samplePicked_spec hsize g
  | free => exact sampleFree_spec hsize g

end Drawing

section Taking

theorem Distinct.rising (h : Distinct n places) : Rising n (places.mergeSort (· ≤ ·)) := by
  have hperm := List.mergeSort_perm places (· ≤ ·)
  have hsorted : (places.mergeSort (· ≤ ·)).Pairwise fun a b => decide (a ≤ b) = true :=
    List.pairwise_mergeSort (by simp only [decide_eq_true_eq]; exact fun _ _ _ => Nat.le_trans)
      (by simp only [Bool.or_eq_true, decide_eq_true_eq]; exact Nat.le_total) places
  refine ⟨?_, (h.perm hperm).lt⟩
  refine hsorted.imp₂ (fun a b hle hne => ?_) (h.perm hperm).nodup
  exact Nat.lt_of_le_of_ne (of_decide_eq_true hle) hne

theorem rising_range (n : Nat) : Rising n (List.range n) :=
  ⟨List.pairwise_lt_range, fun _ => List.mem_range.1⟩

variable {xs : List α}

theorem filterMap_getElem?_eq_map (h : ∀ i ∈ places, i < xs.length) :
    places.filterMap (xs[·]?) = (places.pmap Fin.mk h).map (xs[·]) := by
  induction places with
  | nil => rfl
  | cons i places ih =>
      obtain ⟨hi, hrest⟩ := List.forall_mem_cons.1 h
      rw [List.filterMap_cons_some (List.getElem?_eq_getElem hi), ih hrest, List.pmap_cons,
        List.map_cons]
      rfl

theorem length_filterMap_getElem? (h : ∀ i ∈ places, i < xs.length) :
    (places.filterMap (xs[·]?)).length = places.length := by
  rw [filterMap_getElem?_eq_map h, List.length_map, List.length_pmap]

theorem filterMap_getElem?_sublist (h : Rising xs.length places) :
    (places.filterMap (xs[·]?)).Sublist xs := by
  rw [filterMap_getElem?_eq_map h.lt]
  exact List.map_getElem_sublist (h.increasing.pmap h.lt fun _ _ _ _ hlt => hlt)

theorem filterMap_getElem?_range (xs : List α) :
    (List.range xs.length).filterMap (xs[·]?) = xs := by
  have hrising := rising_range xs.length
  refine (filterMap_getElem?_sublist hrising).eq_of_length ?_
  rw [length_filterMap_getElem? hrising.lt, List.length_range]

-- The places do not depend on the elements, so that equal elements cannot stand in for each other.
theorem exists_places_subsequence (n size : Nat) (g : G) :
    ∃ places, Rising n places ∧ places.length = min size n ∧
      ∀ {α : Type} (xs : List α), xs.length = n →
        (subsequence xs size g).1 = places.filterMap (xs[·]?) := by
  by_cases hsize : n ≤ size
  · refine ⟨List.range n, rising_range n, ?_, ?_⟩
    · rw [List.length_range, Nat.min_eq_right hsize]
    · rintro α xs rfl
      rw [subsequence, if_pos hsize, filterMap_getElem?_range]
  · have hlt := Nat.lt_of_not_le hsize
    obtain ⟨hdistinct, hlength⟩ := sample_spec (Nat.le_of_lt hlt) (some g)
    refine ⟨_, hdistinct.rising, ?_, ?_⟩
    · rw [List.length_mergeSort, hlength, Nat.min_eq_left (Nat.le_of_lt hlt)]
    · rintro α xs rfl
      rw [subsequence, if_neg hsize]

theorem subsequence_sublist (xs : List α) (size : Nat) (g : G) :
    (subsequence xs size g).1.Sublist xs := by
  obtain ⟨places, hrising, -, heq⟩ := exists_places_subsequence xs.length size g
  rw [heq xs rfl]
  exact filterMap_getElem?_sublist hrising

end Taking

end RuleInduction.Random
