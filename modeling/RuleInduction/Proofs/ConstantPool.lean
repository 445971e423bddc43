import RuleInduction.ConstantPool

namespace RuleInduction.ConstantPool

variable {pool pool' : ConstantPool} {type v : String} {entries : List (String × String)}

def Knows (pool : ConstantPool) (type v : String) : Prop :=
  ∃ values, pool.get? type = some values ∧ v ∈ values

def Occupied (pool : ConstantPool) : Prop :=
  ∀ type values, pool.get? type = some values → ∃ v, v ∈ values

theorem get?_add (pool : ConstantPool) (e : String × String) (type : String) :
    (pool.add e).get? type =
      if e.1 = type then some (((pool.get? type).getD ∅).insert e.2) else pool.get? type := by
  simp only [get?, add, Std.ExtTreeMap.getElem?_alter, Std.LawfulEqOrd.compare_eq_iff_eq]
  by_cases h : e.1 = type <;> simp [h]

theorem knows_add {e : String × String} :
    (pool.add e).Knows type v ↔ e = (type, v) ∨ pool.Knows type v := by
  obtain ⟨t, w⟩ := e
  simp only [Knows, get?_add, Prod.mk.injEq]
  by_cases ht : t = type
  · subst ht
    cases pool.get? t <;> simp [Std.ExtTreeSet.mem_insert]
  · simp [ht]

theorem occupied_add (h : pool.Occupied) (e : String × String) : (pool.add e).Occupied := by
  intro type values hget
  rw [get?_add] at hget
  split at hget
  · cases hget
    exact ⟨e.2, Std.ExtTreeSet.mem_insert_self⟩
  · exact h type values hget

theorem knows_foldl_add :
    (entries.foldl add pool).Knows type v ↔ (type, v) ∈ entries ∨ pool.Knows type v := by
  induction entries generalizing pool with
  | nil => simp
  | cons e entries ih =>
      rw [List.foldl_cons, ih, knows_add, List.mem_cons, ← or_assoc, or_comm (b := e = _),
        eq_comm (a := e)]

theorem occupied_foldl_add (h : pool.Occupied) : (entries.foldl add pool).Occupied := by
  induction entries generalizing pool with
  | nil => exact h
  | cons e entries ih => exact ih (occupied_add h e)

theorem knows_ofList : (ofList entries).Knows type v ↔ (type, v) ∈ entries := by
  rw [ofList, knows_foldl_add]
  refine or_iff_left ?_
  rintro ⟨values, hget, _⟩
  simp [get?, empty] at hget

theorem occupied_ofList (entries : List (String × String)) : (ofList entries).Occupied :=
  occupied_foldl_add fun type values hget => by simp [get?, empty] at hget

theorem isSome_get?_iff (h : pool.Occupied) :
    (pool.get? type).isSome = true ↔ ∃ v, pool.Knows type v := by
  rw [Option.isSome_iff_exists]
  constructor
  · rintro ⟨values, hvalues⟩
    obtain ⟨v, hv⟩ := h type values hvalues
    exact ⟨v, values, hvalues, hv⟩
  · rintro ⟨v, values, hvalues, -⟩
    exact ⟨values, hvalues⟩

-- A pool that lists a type without values knows no less than one that does not list it, so
-- knowledge alone does not determine a pool.
theorem eq_of_knows (h : pool.Occupied) (h' : pool'.Occupied)
    (hknows : ∀ type v, pool.Knows type v ↔ pool'.Knows type v) : pool = pool' := by
  have hget (type : String) : pool.get? type = pool'.get? type := by
    have hsome : (pool.get? type).isSome = (pool'.get? type).isSome := by
      rw [Bool.eq_iff_iff, isSome_get?_iff h, isSome_get?_iff h']
      exact exists_congr (hknows type)
    have hmem := hknows type
    simp only [Knows] at hmem
    cases hvalues : pool.get? type with
    | none =>
        rw [hvalues] at hsome
        have hnone : ¬ (pool'.get? type).isSome = true := hsome ▸ Bool.false_ne_true
        rw [Option.not_isSome_iff_eq_none.1 hnone]
    | some values =>
        rw [hvalues] at hsome
        obtain ⟨values', hvalues'⟩ := Option.isSome_iff_exists.1 hsome.symm
        rw [hvalues']
        refine congrArg some (Std.ExtTreeSet.ext_mem fun v => ?_)
        simpa [hvalues, hvalues'] using hmem v
  cases pool
  cases pool'
  congr 1
  exact Std.ExtTreeMap.ext_getElem? hget

def Seen (modes : List Mode) (facts : List Fact) (type v : String) : Prop :=
  ∃ m ∈ modes, ∃ i : Nat, m.slots[i]? = some ⟨.constant, type⟩ ∧
    ∃ f ∈ facts, f.predicate = m.predicate ∧ f.arguments[i]? = some v

variable {modes modes' : List Mode} {facts facts' : List Fact}

theorem Seen.mono (h : Seen modes facts type v) (hmodes : modes ⊆ modes') (hfacts : facts ⊆ facts') :
    Seen modes' facts' type v := by
  obtain ⟨m, hm, i, hslot, f, hf, hvalue⟩ := h
  exact ⟨m, hmodes hm, i, hslot, f, hfacts hf, hvalue⟩

theorem mem_entries : (type, v) ∈ ConstantPool.entries modes facts ↔ Seen modes facts type v := by
  simp only [ConstantPool.entries, List.mem_flatMap, List.mem_filterMap, valueAt?]
  constructor
  · rintro ⟨m, hm, ⟨⟨symbol, t⟩, i⟩, hslot, f, hf, hvalue⟩
    split at hvalue
    · next hcond =>
        obtain ⟨rfl, hpred⟩ := hcond
        obtain ⟨w, hw, heq⟩ := Option.map_eq_some_iff.1 hvalue
        cases heq
        exact ⟨m, hm, i, List.mem_zipIdx_iff_getElem?.1 hslot, f, hf, hpred, hw⟩
    · cases hvalue
  · rintro ⟨m, hm, i, hslot, f, hf, hpred, hw⟩
    refine ⟨m, hm, (⟨.constant, type⟩, i), List.mem_zipIdx_iff_getElem?.2 hslot, f, hf, ?_⟩
    rw [if_pos ⟨rfl, hpred⟩, hw, Option.map_some]

theorem knows_derive : (derive modes facts).Knows type v ↔ Seen modes facts type v :=
  knows_ofList.trans mem_entries

theorem mem_values : v ∈ pool.values type ↔ pool.Knows type v := by
  simp only [values, Knows]
  cases pool.get? type with
  | none => simp
  | some known => simp [Std.ExtTreeSet.mem_toList]

theorem derive_eq_of_seen (h : ∀ type v, Seen modes facts type v ↔ Seen modes' facts' type v) :
    derive modes facts = derive modes' facts' :=
  eq_of_knows (occupied_ofList _) (occupied_ofList _) fun type v => by
    rw [knows_derive, knows_derive, h]

theorem derive_congr (hmodes : ∀ m, m ∈ modes ↔ m ∈ modes') (hfacts : ∀ f, f ∈ facts ↔ f ∈ facts') :
    derive modes facts = derive modes' facts' :=
  derive_eq_of_seen fun _ _ =>
    ⟨fun h => h.mono (fun m => (hmodes m).1) fun f => (hfacts f).1,
      fun h => h.mono (fun m => (hmodes m).2) fun f => (hfacts f).2⟩

theorem derive_knows_iff_seen (modes : List Mode) (facts : List Fact) :
    (∀ type v, ((derive modes facts).Knows type v ↔ Seen modes facts type v) ∧
      (v ∈ (derive modes facts).values type ↔ Seen modes facts type v)) ∧
    (∀ type, ((derive modes facts).get? type).isSome = true ↔ ∃ v, Seen modes facts type v) ∧
    (∀ modes' facts', (∀ m, m ∈ modes ↔ m ∈ modes') → (∀ f, f ∈ facts ↔ f ∈ facts') →
      derive modes facts = derive modes' facts') ∧
    ∀ modes' facts', modes ⊆ modes' → facts ⊆ facts' → ∀ type v,
      (derive modes facts).Knows type v → (derive modes' facts').Knows type v := by
  refine ⟨fun _ _ => ⟨knows_derive, mem_values.trans knows_derive⟩, fun type => ?_,
    fun _ _ => derive_congr, fun modes' facts' hmodes hfacts type v h => ?_⟩
  · exact (isSome_get?_iff (occupied_ofList _)).trans (exists_congr fun _ => knows_derive)
  · exact knows_derive.2 ((knows_derive.1 h).mono hmodes hfacts)

theorem derive_knows_iff_seen_gender :
    let modes : List Mode := [⟨"loves", [⟨.input, "person"⟩, ⟨.constant, "gender"⟩]⟩,
      ⟨"movie", [⟨.constant, "gender"⟩, ⟨.output, "year"⟩]⟩]
    let facts : List Fact := [⟨1.0, "loves", ["ann"]⟩, ⟨0.5, "loves", ["tom", "scifi", "often"]⟩,
      ⟨1.0, "movie", ["comedy"]⟩]
    ((derive modes facts).Knows "gender" "scifi" ∧ (derive modes facts).Knows "gender" "comedy") ∧
    derive modes facts = derive modes.reverse (facts ++ facts) ∧
    (derive (⟨"loves", [⟨.constant, "person"⟩]⟩ :: modes) facts).Knows "gender" "scifi" := by
  intro modes facts
  obtain ⟨hknows, -, hsame, hgrows⟩ := derive_knows_iff_seen modes facts
  have hscifi : (derive modes facts).Knows "gender" "scifi" :=
    (hknows _ _).1.2 ⟨_, .head _, 1, rfl, _, .tail _ (.head _), rfl, rfl⟩
  have hcomedy : (derive modes facts).Knows "gender" "comedy" :=
    (hknows _ _).1.2 ⟨_, .tail _ (.head _), 0, rfl, _, .tail _ (.tail _ (.head _)), rfl, rfl⟩
  refine ⟨⟨hscifi, hcomedy⟩, hsame _ _ (fun m => ?_) (fun f => ?_), ?_⟩
  · exact List.mem_reverse.symm
  · rw [List.mem_append, or_self]
  · exact hgrows _ facts (List.subset_cons_self _ _) (List.Subset.refl _) _ _ hscifi

end RuleInduction.ConstantPool
