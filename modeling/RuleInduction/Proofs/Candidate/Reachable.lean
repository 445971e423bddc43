import RuleInduction.Proofs.Candidate.Admitted
import RuleInduction.Proofs.ConstantPool
import RuleInduction.Proofs.Matching.Progress
import RuleInduction.Proofs.Store

namespace RuleInduction

namespace Term

variable {b : Bindings} {x v : String} {value? : Option String}

theorem ofValue_eq (h : '\"' ∉ v.toList) : ofValue v = const v := by
  have hfilter : v.toList.filter (· ≠ '\"') = v.toList := by
    refine List.filter_eq_self.2 fun c hc => decide_eq_true ?_
    rintro rfl
    exact h hc
  rw [ofValue, hfilter, String.ofList_toList]

theorem admits_const : ((const v).constraint b).admits (some v) = true :=
  beq_self_eq_true (some v)

theorem admits_var (h : ∀ values, b.get? x = some values → ∃ v ∈ value?, v ∈ values) :
    ((var x).constraint b).admits value? = true := by
  rw [constraint]
  split
  · rfl
  · cases hget : b.get? x with
    | none => rfl
    | some values =>
        obtain ⟨v, rfl, hv⟩ := h values hget
        exact Std.ExtTreeSet.contains_iff_mem.2 hv

end Term

-- A term that is bound or known may fill the slot and stand for the value. An output needs none,
-- for it may introduce a variable.
def Slot.Serves (s : Surroundings) (b : Bindings) (slot : Slot) (v : String) : Prop :=
  match slot.symbol with
  | .constant => v ∈ s.constants.values slot.type ∧ Term.ofValue v = .const v
  | .input => ∃ x, s.Binds slot.type x ∧ ∀ values, b.get? x = some values → v ∈ values
  | .output => True
  | .bodyOutput => True

variable {s : Surroundings} {b : Bindings} {names : FreshNames}

theorem Slot.Serves.exists_admits {slot : Slot} {v fresh : String} (h : slot.Serves s b v)
    (hfresh : b.get? fresh = none) :
    ∃ t, slot.Admits s fresh t ∧ (t.constraint b).admits (some v) = true := by
  obtain ⟨symbol, type⟩ := slot
  have hunbound : ((Term.var fresh).constraint b).admits (some v) = true :=
    Term.admits_var fun values hget => by cases hfresh.symm.trans hget
  cases symbol with
  | input =>
      obtain ⟨x, hx, hv⟩ := h
      exact ⟨.var x, .input hx, Term.admits_var fun values hget => ⟨v, rfl, hv values hget⟩⟩
  | output => exact ⟨.var fresh, .fresh rfl, hunbound⟩
  | bodyOutput => exact ⟨.var fresh, .fresh rfl, hunbound⟩
  | constant =>
      obtain ⟨hknown, hconst⟩ := h
      exact ⟨.ofValue v, .constant hknown, hconst ▸ Term.admits_const⟩

theorem exists_fills {slots : List Slot} {values : List String}
    (hlen : slots.length ≤ values.length)
    (hserves : ∀ (i : Nat) (slot : Slot) (v : String), slots[i]? = some slot →
      values[i]? = some v → slot.Serves s b v)
    (hused : ∀ x, x ∉ names.used → b.get? x = none) :
    ∃ ts, Fills s names slots ts ∧ ∀ (i : Nat) (t : Term), ts[i]? = some t →
      (t.constraint b).admits values[i]? = true := by
  induction slots generalizing names values with
  | nil => exact ⟨[], .nil, fun i t ht => by cases ht⟩
  | cons slot slots ih =>
      cases values with
      | nil => cases hlen
      | cons v values =>
          obtain ⟨t, ht, hadmits⟩ :=
            (hserves 0 slot v rfl rfl).exists_admits (hused _ FreshNames.next_not_mem)
          have hafter : ∀ x, x ∉ (slot.after names).used → b.get? x = none :=
            fun x hx => hused x (mt Slot.mem_used_after hx)
          obtain ⟨ts, hfills, hrest⟩ := ih (Nat.le_of_succ_le_succ hlen)
            (fun i slot' v' hslot hv => hserves (i + 1) slot' v' hslot hv) hafter
          refine ⟨t :: ts, .cons ht hfills, fun i t' ht' => ?_⟩
          cases i with
          | zero =>
              cases ht'
              exact hadmits
          | succ i => exact hrest i t' ht'

theorem mem_values_derive {modes : List Mode} {facts : List Fact} {m : Mode} {f : Fact} {i : Nat}
    {type v : String} (hm : m ∈ modes) (hf : f ∈ facts) (hp : f.predicate = m.predicate)
    (hslot : m.slots[i]? = some ⟨.constant, type⟩) (hv : f.arguments[i]? = some v) :
    v ∈ (ConstantPool.derive modes facts).values type :=
  ConstantPool.mem_values.2 (ConstantPool.knows_derive.2 ⟨m, hm, i, hslot, f, hf, hp, hv⟩)

theorem binaryStrengths_of_mem_kept {v : View} {l : Literal} {row : Row} (h : row ∈ l.kept v b) :
    binaryStrengths v b [l] = [1.0] := by
  refine binaryStrengths_eq_ones.2 ?_
  rw [progress_cons_of_ne_nil (List.ne_nil_of_mem h)]
  rfl

-- A mode whose inputs all have such variables is eligible, so that needs no hypothesis of its own.
theorem exists_candidate_of_fact (modes : List Mode) (facts : List Fact)
    (allowed : Std.ExtTreeSet Predicate) (head body : Scope) (names : FreshNames) (b : Bindings)
    (m : Mode) (f : Fact) (hm : m ∈ modes) (hallowed : m.predicate ∈ allowed) (hf : f ∈ facts)
    (hp : f.predicate = m.predicate) (harity : m.arity ≤ f.arity)
    (hquotes : ∀ v ∈ f.arguments, '\"' ∉ v.toList)
    (hused : ∀ x values, b.get? x = some values → names.isUsed x = true)
    (hinputs : ∀ (i : Nat) (type v : String), m.slots[i]? = some ⟨.input, type⟩ →
      f.arguments[i]? = some v → ∃ x, (x ∈ head.vars type ∨ x ∈ body.vars type) ∧
        ∀ values, b.get? x = some values → v ∈ values) :
    ∃ l ∈ Candidates.generate modes allowed ⟨.derive modes facts, head, body⟩ names,
      l.predicate = m.predicate ∧ f.row ∈ l.kept (Store.compile facts).view b ∧
        binaryStrengths (Store.compile facts).view b [l] = [1.0] := by
  let s : Surroundings := ⟨.derive modes facts, head, body⟩
  have hbinds {type x : String} (hx : x ∈ head.vars type ∨ x ∈ body.vars type) :
      s.Binds type x :=
    hx.imp Scope.mem_vars.1 Scope.mem_vars.1
  have hserves (i : Nat) (slot : Slot) (v : String) (hslot : m.slots[i]? = some slot)
      (hv : f.arguments[i]? = some v) : slot.Serves s b v := by
    obtain ⟨symbol, type⟩ := slot
    cases symbol with
    | input =>
        obtain ⟨x, hx, hvalues⟩ := hinputs i type v hslot hv
        exact ⟨x, hbinds hx, hvalues⟩
    | output => trivial
    | bodyOutput => trivial
    | constant =>
        exact ⟨mem_values_derive hm hf hp hslot hv,
          Term.ofValue_eq (hquotes v (List.mem_of_getElem? hv))⟩
  have hfree (x : String) (hx : x ∉ names.used) : b.get? x = none := by
    cases hget : b.get? x with
    | none => rfl
    | some values =>
        exact absurd (Std.ExtTreeSet.contains_iff_mem.1 (hused x values hget)) hx
  have heligible : m.eligible s = true := by
    refine Mode.eligible_iff.2 fun slot hmem hsymbol => ?_
    obtain ⟨i, hi, rfl⟩ := List.mem_iff_getElem.1 hmem
    have hslot : m.slots[i]? = some ⟨.input, m.slots[i].type⟩ := by
      rw [List.getElem?_eq_getElem hi, ← hsymbol]
    have hv := List.getElem?_eq_getElem (Nat.lt_of_lt_of_le hi harity)
    obtain ⟨x, hx, _⟩ := hinputs i _ _ hslot hv
    exact ⟨x, hbinds hx⟩
  obtain ⟨ts, hfills, hadmits⟩ := exists_fills harity hserves hfree
  have hrow : f.row ∈ (⟨m.predicate, ts⟩ : Literal).kept (Store.compile facts).view b := by
    refine Literal.mem_kept.2 ⟨?_, Literal.admits_iff.2 hadmits⟩
    rw [View.rows_view, Store.rows_compile]
    exact List.mem_map_of_mem (List.mem_filter.2 ⟨hf, decide_eq_true hp⟩)
  refine ⟨⟨m.predicate, ts⟩, ?_, rfl, hrow, binaryStrengths_of_mem_kept hrow⟩
  exact Candidates.mem_generate.2 ⟨m, hm, hallowed, heligible, rfl, hfills⟩

-- The input is bound to a set of values, the constant is at a place that the fact of another mode
-- shares, and the first free name is not the first name.
theorem exists_candidate_of_fact_rated :
    let modes : List Mode := [⟨"rated", [⟨.input, "movie"⟩, ⟨.bodyOutput, "person"⟩,
      ⟨.constant, "mark"⟩]⟩, ⟨"seen", [⟨.input, "movie"⟩]⟩]
    let f : Fact := ⟨0.5, "rated", ["jaws", "ann", "good", "2020"]⟩
    let facts : List Fact := [⟨1.0, "rated", ["heat", "bob", "bad"]⟩, f]
    let head : Scope := ⟨[("movie", "A")]⟩
    let body : Scope := ⟨[("person", "B")]⟩
    let b : Bindings := .ofList [("A", .ofList ["heat", "jaws"]), ("B", .ofList ["bob"])]
    let names := FreshNames.ofUsed ["A", "B"]
    ∃ l ∈ Candidates.generate modes (.ofList ["rated", "seen"]) ⟨.derive modes facts, head, body⟩
        names,
      l.predicate = "rated" ∧ f.row ∈ l.kept (Store.compile facts).view b ∧
        binaryStrengths (Store.compile facts).view b [l] = [1.0] := by
  intro modes f facts head body b names
  have hget (x : String) : b.get? x = if "B" = x then some (.ofList ["bob"])
      else if "A" = x then some (.ofList ["heat", "jaws"]) else none := by
    simp only [b, Bindings.ofList, List.foldl_cons, List.foldl_nil, Bindings.get?_bind]
    simp [Bindings.get?]
  refine exists_candidate_of_fact modes facts _ head body names b _ f List.mem_cons_self
    (by decide) (by simp [facts]) rfl (by decide) (by decide) ?_ ?_
  · intro x values hx
    rw [hget] at hx
    split at hx
    · next hB => exact hB ▸ by decide
    · split at hx
      · next hA => exact hA ▸ by decide
      · cases hx
  · intro i type v hslot hv
    rcases i with _ | _ | _ | i
    · cases hslot
      cases hv
      refine ⟨"A", Or.inl (by decide), fun values hx => ?_⟩
      rw [hget] at hx
      cases hx
      decide
    · cases hslot
    · cases hslot
    · cases hslot

end RuleInduction
