import Mathlib.Data.List.Induction
import RuleInduction.SearchSpace

namespace RuleInduction.Signatures

variable {signatures next : Signatures} {m : Mode} {modes modes' : List Mode} {p : Predicate}
  {e : SetupError}

def Agree (modes : List Mode) : Prop :=
  ∀ m ∈ modes, ∀ m' ∈ modes, m.predicate = m'.predicate → m.types = m'.types

def Clash (modes : List Mode) (p : Predicate) : Prop :=
  ∃ m ∈ modes, ∃ m' ∈ modes, m.predicate = p ∧ m'.predicate = p ∧ m.types ≠ m'.types

theorem Clash.mono (h : Clash modes p) (hsub : modes ⊆ modes') : Clash modes' p := by
  obtain ⟨m, hm, m', hm', hclash⟩ := h
  exact ⟨m, hsub hm, m', hsub hm', hclash⟩

theorem Clash.not_agree (h : Clash modes p) : ¬ Agree modes := by
  obtain ⟨m, hm, m', hm', hp, hp', hne⟩ := h
  exact fun hagree => hne (hagree m hm m' hm' (hp.trans hp'.symm))

structure Describes (signatures : Signatures) (modes : List Mode) : Prop where
  mem_iff : ∀ p, p ∈ signatures ↔ ∃ m ∈ modes, m.predicate = p
  getElem?_eq : ∀ m ∈ modes, signatures[m.predicate]? = some m.types

namespace Describes

theorem nil : Describes ∅ [] :=
  ⟨fun p => by simp, fun m hm => absurd hm List.not_mem_nil⟩

theorem exists_mode (h : Describes signatures modes) {types : List String}
    (hp : signatures[p]? = some types) : ∃ m ∈ modes, m.predicate = p ∧ m.types = types := by
  obtain ⟨m, hm, rfl⟩ := (h.mem_iff p).1 (Std.ExtTreeMap.mem_iff_isSome_getElem?.2 (hp ▸ rfl))
  rw [h.getElem?_eq m hm] at hp
  exact ⟨m, hm, rfl, Option.some.inj hp⟩

theorem agree (h : Describes signatures modes) : Agree modes := by
  intro m hm m' hm' hp
  have htypes := h.getElem?_eq m hm
  rw [hp, h.getElem?_eq m' hm'] at htypes
  exact (Option.some.inj htypes).symm

theorem unique (h : Describes signatures modes) (h' : Describes next modes) :
    signatures = next := by
  refine Std.ExtTreeMap.ext_getElem? fun {p} => Option.ext fun types => ?_
  constructor
  · intro hp
    obtain ⟨m, hm, rfl, rfl⟩ := h.exists_mode hp
    exact h'.getElem?_eq m hm
  · intro hp
    obtain ⟨m, hm, rfl, rfl⟩ := h'.exists_mode hp
    exact h.getElem?_eq m hm

theorem congr (hsame : ∀ m, m ∈ modes ↔ m ∈ modes') :
    Describes signatures modes ↔ Describes signatures modes' := by
  constructor
  · intro h
    exact ⟨fun p => by simp only [h.mem_iff, hsame], fun m hm => h.getElem?_eq m ((hsame m).2 hm)⟩
  · intro h
    exact ⟨fun p => by simp only [h.mem_iff, hsame], fun m hm => h.getElem?_eq m ((hsame m).1 hm)⟩

theorem concat (h : Describes signatures modes) (hadd : signatures.add m = .ok next) :
    Describes next (modes ++ [m]) := by
  have hconcat (p : Predicate) :
      (∃ m' ∈ modes ++ [m], m'.predicate = p) ↔ m.predicate = p ∨ p ∈ signatures := by
    simp only [h.mem_iff, List.mem_append, List.mem_singleton, or_and_right, exists_or,
      exists_eq_left, or_comm]
  simp only [add] at hadd
  split at hadd
  · next hnone =>
      cases hadd
      refine ⟨fun p => ?_, fun m' hm' => ?_⟩
      · rw [hconcat, Std.ExtTreeMap.mem_insert, Std.LawfulEqOrd.compare_eq_iff_eq]
      · rcases List.mem_append.1 hm' with hm' | hm'
        · have hne : m.predicate ≠ m'.predicate := by
            intro hp
            rw [hp, h.getElem?_eq m' hm'] at hnone
            cases hnone
          rw [Std.ExtTreeMap.getElem?_insert, if_neg (mt Std.LawfulEqOrd.eq_of_compare hne),
            h.getElem?_eq m' hm']
        · cases List.mem_singleton.1 hm'
          exact Std.ExtTreeMap.getElem?_insert_self
  · next types hsome =>
      split at hadd
      · next htypes =>
          cases hadd
          refine ⟨fun p => ?_, fun m' hm' => ?_⟩
          · rw [hconcat, or_iff_right_of_imp]
            rintro rfl
            exact Std.ExtTreeMap.mem_iff_isSome_getElem?.2 (hsome ▸ rfl)
          · rcases List.mem_append.1 hm' with hm' | hm'
            · exact h.getElem?_eq m' hm'
            · cases List.mem_singleton.1 hm'
              exact htypes ▸ hsome
      · cases hadd

theorem clash (h : Describes signatures modes) (hadd : signatures.add m = .error e) :
    e = .inconsistentModes m.predicate ∧ Clash (modes ++ [m]) m.predicate := by
  simp only [add] at hadd
  split at hadd
  · cases hadd
  · next types hsome =>
      split at hadd
      · cases hadd
      · next hne =>
          cases hadd
          obtain ⟨m', hm', hp, rfl⟩ := h.exists_mode hsome
          exact ⟨rfl, m', List.mem_append_left _ hm', m, List.mem_append_right _ (.head _), hp,
            rfl, hne⟩

end Describes

theorem ofModes_concat (modes : List Mode) (m : Mode) :
    ofModes (modes ++ [m]) = ofModes modes >>= fun signatures => signatures.add m := by
  simp [ofModes]

-- Each mode is compared with the signatures of the modes before it, so the induction is on the
-- last mode.
theorem describes_ofModes (h : ofModes modes = .ok signatures) : Describes signatures modes := by
  induction modes using List.reverseRecOn generalizing signatures with
  | nil =>
      cases h
      exact .nil
  | append_singleton modes m ih =>
      rw [ofModes_concat] at h
      cases hmodes : ofModes modes with
      | error e =>
          rw [hmodes] at h
          cases h
      | ok before =>
          rw [hmodes] at h
          exact (ih hmodes).concat h

theorem clash_of_ofModes (h : ofModes modes = .error e) :
    ∃ p, e = .inconsistentModes p ∧ Clash modes p := by
  induction modes using List.reverseRecOn with
  | nil => cases h
  | append_singleton modes m ih =>
      rw [ofModes_concat] at h
      cases hmodes : ofModes modes with
      | error e' =>
          rw [hmodes] at h
          cases h
          obtain ⟨p, rfl, hclash⟩ := ih hmodes
          exact ⟨p, rfl, hclash.mono (List.subset_append_left _ _)⟩
      | ok before =>
          rw [hmodes] at h
          exact ⟨_, (describes_ofModes hmodes).clash h⟩

theorem exists_ofModes_iff : (∃ signatures, ofModes modes = .ok signatures) ↔ Agree modes := by
  constructor
  · rintro ⟨signatures, h⟩
    exact (describes_ofModes h).agree
  · intro hagree
    cases h : ofModes modes with
    | error e =>
        obtain ⟨p, -, hclash⟩ := clash_of_ofModes h
        exact absurd hagree hclash.not_agree
    | ok signatures => exact ⟨signatures, rfl⟩

theorem ofModes_eq_ok_iff : ofModes modes = .ok signatures ↔ Describes signatures modes := by
  refine ⟨describes_ofModes, fun h => ?_⟩
  obtain ⟨next, hnext⟩ := exists_ofModes_iff.2 h.agree
  rw [hnext, h.unique (describes_ofModes hnext)]

theorem toOption_eq_some_iff {ε α : Type} {x : Except ε α} {a : α} :
    x.toOption = some a ↔ x = .ok a := by
  cases x <;> simp [Except.toOption]

theorem toOption_ofModes_congr (h : ∀ m, m ∈ modes ↔ m ∈ modes') :
    (ofModes modes).toOption = (ofModes modes').toOption := by
  refine Option.ext fun signatures => ?_
  rw [toOption_eq_some_iff, toOption_eq_some_iff, ofModes_eq_ok_iff, ofModes_eq_ok_iff,
    Describes.congr h]

theorem mem_ofModes (h : ofModes modes = .ok signatures) :
    p ∈ signatures ↔ ∃ m ∈ modes, m.predicate = p :=
  (describes_ofModes h).mem_iff p

theorem types_of_mem (h : ofModes modes = .ok signatures) (hm : m ∈ modes) :
    signatures.types m.predicate = m.types := by
  rw [types, (describes_ofModes h).getElem?_eq m hm, Option.getD_some]

theorem ofModes_iff_agree (modes : List Mode) :
    ((∃ signatures, ofModes modes = .ok signatures) ↔ Agree modes) ∧
    (∀ signatures, ofModes modes = .ok signatures ↔ Describes signatures modes) ∧
    (∀ e, ofModes modes = .error e → ∃ p, e = .inconsistentModes p ∧ Clash modes p) ∧
    ∀ modes', modes.Perm modes' → (ofModes modes).toOption = (ofModes modes').toOption :=
  ⟨exists_ofModes_iff, fun _ => ofModes_eq_ok_iff, fun _ => clash_of_ofModes,
    fun _ h => toOption_ofModes_congr fun _ => h.mem_iff⟩

theorem ofModes_iff_agree_of_symbols :
    let modes : List Mode := [⟨"test", [⟨.input, "var"⟩, ⟨.output, "cnt"⟩]⟩,
      ⟨"count", [⟨.input, "cnt"⟩]⟩, ⟨"test", [⟨.output, "var"⟩, ⟨.input, "cnt"⟩]⟩]
    let longer : List Mode := modes ++ [⟨"test", [⟨.input, "var"⟩]⟩]
    (∃ signatures, Describes signatures modes ∧
      (ofModes modes.reverse).toOption = some signatures) ∧
    ofModes longer = .error (.inconsistentModes "test") ∧ Clash longer "test" := by
  intro modes longer
  have hagree : Agree modes := by
    unfold Agree
    decide +kernel
  obtain ⟨hok, hdescribes, -, hperm⟩ := ofModes_iff_agree modes
  obtain ⟨signatures, hsig⟩ := hok.2 hagree
  have hreverse := hperm modes.reverse (List.reverse_perm modes).symm
  rw [hsig] at hreverse
  obtain ⟨p, hp, hclash⟩ := (ofModes_iff_agree longer).2.2.1 _ rfl
  cases hp
  exact ⟨⟨signatures, (hdescribes signatures).1 hsig, hreverse.symm⟩, rfl, hclash⟩

end RuleInduction.Signatures

namespace RuleInduction.SearchSpace

variable {target : String} {modes : List Mode} {background : List Fact} {space : SearchSpace}

structure Suits (target : String) (modes : List Mode) (space : SearchSpace) : Prop where
  target_ne_nil : Text.trim target.toList ≠ []
  target_eq : space.target = String.ofList (Text.trim target.toList)
  modes_eq : space.modes = modes
  signatures : Signatures.ofModes modes = .ok space.signatures
  target_mem : space.target ∈ space.signatures

theorem ofModes_eq_ok_iff : ofModes target modes background = .ok space ↔
    Suits target modes space ∧ space.constants = .derive modes background := by
  simp only [ofModes, bind, Except.bind, pure, Except.pure, throw, throwThe,
    MonadExceptOf.throw]
  constructor
  · intro h
    split at h
    · cases h
    · next hname =>
        split at h
        · cases h
        · next signatures hsig =>
            split at h
            · cases h
            · next hmem =>
                cases h
                exact ⟨⟨mt List.isEmpty_iff.2 hname, rfl, rfl, hsig, Classical.not_not.1 hmem⟩, rfl⟩
  · obtain ⟨name, own, signatures, constants⟩ := space
    rintro ⟨⟨hname, htarget, hmodes, hsig, hmem⟩, hconstants⟩
    dsimp only at htarget hmodes hsig hmem hconstants
    subst htarget hmodes hconstants
    rw [if_neg (mt List.isEmpty_iff.1 hname), hsig]
    simp only [if_neg (Classical.not_not.2 hmem)]

theorem ofModes_eq_ok (h : ofModes target modes background = .ok space) :
    Signatures.ofModes modes = .ok space.signatures ∧ space.modes = modes :=
  have hsuits := (ofModes_eq_ok_iff.1 h).1
  ⟨hsuits.signatures, hsuits.modes_eq⟩

theorem target_mem_of_ofModes (h : ofModes target modes background = .ok space) :
    ∃ m ∈ modes, m.predicate = space.target :=
  have hsuits := (ofModes_eq_ok_iff.1 h).1
  (Signatures.mem_ofModes hsuits.signatures).1 hsuits.target_mem

theorem types_of_mem (h : ofModes target modes background = .ok space) {m : Mode}
    (hm : m ∈ space.modes) : space.signatures.types m.predicate = m.types := by
  obtain ⟨hsig, hmodes⟩ := ofModes_eq_ok h
  exact Signatures.types_of_mem hsig (hmodes ▸ hm)

theorem exists_ofModes_iff : (∃ space, ofModes target modes background = .ok space) ↔
    Text.trim target.toList ≠ [] ∧ Signatures.Agree modes ∧
      ∃ m ∈ modes, m.predicate = String.ofList (Text.trim target.toList) := by
  constructor
  · rintro ⟨space, h⟩
    have hsuits := (ofModes_eq_ok_iff.1 h).1
    refine ⟨hsuits.target_ne_nil, Signatures.exists_ofModes_iff.1 ⟨_, hsuits.signatures⟩, ?_⟩
    rw [← hsuits.target_eq]
    exact target_mem_of_ofModes h
  · rintro ⟨hname, hagree, hdeclared⟩
    obtain ⟨signatures, hsig⟩ := Signatures.exists_ofModes_iff.2 hagree
    exact ⟨⟨_, modes, signatures, .derive modes background⟩, ofModes_eq_ok_iff.2
      ⟨⟨hname, rfl, rfl, hsig, (Signatures.mem_ofModes hsig).2 hdeclared⟩, rfl⟩⟩

end RuleInduction.SearchSpace
