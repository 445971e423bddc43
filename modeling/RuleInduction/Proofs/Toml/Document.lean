import RuleInduction.Proofs.Toml.Scalar

namespace RuleInduction.Toml

variable {cs rest value key : List Char} {k : String} {v : Toml} {es done : Entries}

def BareKey (cs : List Char) : Prop :=
  cs ≠ [] ∧ ∀ c ∈ cs, isBareKeyChar c = true

inductive Lines : List Char → Entries → Prop
  | nil : Lines [] []
  | cons {key value rest : List Char} {v : Toml} {es : Entries} (hkey : BareKey key)
      (hvalue : Reads value v) (htail : Lines rest es) :
      Lines (key ++ ' ' :: '=' :: ' ' :: (value ++ '\n' :: rest)) ((String.ofList key, v) :: es)

theorem ne_of_isBareKeyChar {c d : Char} (h : isBareKeyChar c = true)
    (hd : isBareKeyChar d = false) : c ≠ d := by
  rintro rfl
  exact Bool.false_ne_true (hd.symm.trans h)

theorem isWs_of_isBareKeyChar {c : Char} (h : isBareKeyChar c = true) : isWs c = false := by
  refine Bool.eq_false_iff.2 fun hws => ?_
  simp only [isWs, Bool.or_eq_true, decide_eq_true_eq] at hws
  rcases hws with rfl | rfl <;> cases h

theorem keyPart?_bare (h : BareKey key) (hrest : ∀ c ∈ rest.head?, isBareKeyChar c = false) :
    keyPart? (key ++ rest) = some (key, rest) := by
  have htake := Line.takeWhile_exact h.2 hrest
  have hdrop := Line.dropWhile_exact h.2 hrest
  cases key with
  | nil => exact absurd rfl h.1
  | cons c key =>
      have hc := h.2 c List.mem_cons_self
      rw [List.cons_append] at htake hdrop ⊢
      rw [keyPart?, htake, hdrop]
      · exact fun _ heq => ne_of_isBareKeyChar hc rfl (List.cons.inj heq).1
      · exact fun _ heq => ne_of_isBareKeyChar hc rfl (List.cons.inj heq).1

theorem skipWs_bare (h : BareKey key) (rest : List Char) : skipWs (key ++ rest) = key ++ rest := by
  cases key with
  | nil => exact absurd rfl h.1
  | cons c key =>
      have hc := isWs_of_isBareKeyChar (h.2 c List.mem_cons_self)
      rw [skipWs, List.cons_append, List.dropWhile_cons, hc, if_neg Bool.false_ne_true]

theorem key?_bare (h : BareKey key) (rest : List Char) :
    key? (key ++ ' ' :: '=' :: rest) = some ([String.ofList key], '=' :: rest) := by
  have hpart : keyPart? (skipWs (key ++ ' ' :: '=' :: rest)) = some (key, ' ' :: '=' :: rest) := by
    rw [skipWs_bare h]
    exact keyPart?_bare h (Line.forall_head?_cons rfl)
  obtain ⟨n, hn⟩ : ∃ n, (key ++ ' ' :: '=' :: rest).length = n + 1 :=
    ⟨_, by rw [List.length_append, List.length_cons]; rfl⟩
  rw [key?, hn, keyWithin?, hpart]
  rfl

theorem pair?_line (hkey : BareKey key) (hvalue : Reads value v) (rest : List Char) :
    pair? (value? depthLimit) (key ++ ' ' :: '=' :: ' ' :: (value ++ '\n' :: rest)) =
      some (([String.ofList key], v), '\n' :: rest) := by
  have hstart : skipWs (' ' :: (value ++ '\n' :: rest)) = skipWs (value ++ '\n' :: rest) := rfl
  rw [pair?, key?_bare hkey]
  simp only [skip?, Option.bind_eq_bind, Option.bind_some, if_pos, hstart, hvalue rest]
  rfl

theorem endLine?_end (rest : List Char) : endLine? ('\n' :: rest) = some rest :=
  rfl

theorem statement?_line (hkey : BareKey key) (hvalue : Reads value v) (rest : List Char)
    (done : Entries) :
    statement? ⟨[], done⟩ (key ++ ' ' :: '=' :: ' ' :: (value ++ '\n' :: rest)) =
      (done.add? (String.ofList key) v).map fun es => (⟨[], es⟩, rest) := by
  have hpair := pair?_line hkey hvalue rest
  cases key with
  | nil => exact absurd rfl hkey.1
  | cons c key =>
      have hc := hkey.2 c List.mem_cons_self
      rw [List.cons_append] at hpair ⊢
      rw [statement?, hpair]
      · generalize String.ofList (c :: key) = name
        have hput : Entries.putKey? done ([name], v) = done.add? name v := rfl
        simp only [Option.bind_eq_bind, Option.bind_some, endLine?_end, Entries.inTable?, hput]
        cases done.add? name v <;> rfl
      · exact fun _ heq => ne_of_isBareKeyChar hc rfl (List.cons.inj heq).1
      · exact fun _ heq => ne_of_isBareKeyChar hc rfl (List.cons.inj heq).1

theorem get?_of_not_mem (h : k ∉ done.map Prod.fst) : done.get? k = none := by
  rw [Entries.get?, Option.map_eq_none_iff, List.find?_eq_none]
  intro e he hk
  exact h (of_decide_eq_true hk ▸ List.mem_map_of_mem he)

theorem add?_of_not_mem (h : k ∉ done.map Prod.fst) : done.add? k v = some (done ++ [(k, v)]) := by
  rw [Entries.add?, get?_of_not_mem h]

theorem skipVoid_line (h : BareKey key) (rest : List Char) :
    skipVoid false (key ++ rest) = key ++ rest := by
  cases key with
  | nil => exact absurd rfl h.1
  | cons c key =>
      have hc := h.2 c List.mem_cons_self
      have hws := isWs_of_isBareKeyChar hc
      have hline := ne_of_isBareKeyChar hc (d := '\n') rfl
      have hreturn := ne_of_isBareKeyChar hc (d := '\r') rfl
      have hcomment := ne_of_isBareKeyChar hc (d := '#') rfl
      simp [skipVoid, hws, hline, hreturn, hcomment]

-- Each statement adds one entry at the end, so the entries before it are kept apart.
theorem statements?_lines (h : Lines cs es) (hnodup : ((done ++ es).map Prod.fst).Nodup) {n : ℕ}
    (hn : es.length ≤ n) : statements? n ⟨[], done⟩ cs = some (done ++ es) := by
  induction h generalizing done n with
  | nil =>
      rw [List.append_nil]
      cases n <;> rfl
  | @cons key value rest v es hkey hvalue htail ih =>
      cases n with
      | zero => cases hn
      | succ n =>
          have hfresh : String.ofList key ∉ done.map Prod.fst := by
            rw [List.map_append, List.nodup_append] at hnodup
            exact fun hmem => hnodup.2.2 _ hmem _ List.mem_cons_self rfl
          have hafter : ((done ++ [(String.ofList key, v)] ++ es).map Prod.fst).Nodup := by
            rwa [← List.append_cons]
          have hstatement := statement?_line hkey hvalue rest done
          rw [add?_of_not_mem hfresh] at hstatement
          rw [statements?, skipVoid_line hkey, List.append_cons done]
          split
          · next heq => cases hkey.1 (List.append_eq_nil_iff.1 heq).1
          · rw [hstatement]
            exact ih hafter (Nat.le_of_succ_le_succ hn)

theorem length_le_of_lines (h : Lines cs es) : es.length ≤ cs.length := by
  induction h with
  | nil => exact Nat.le_refl _
  | cons hkey hvalue htail ih =>
      simp only [List.length_append, List.length_cons]
      omega

theorem head?_lines (h : Lines cs es) : ∀ c ∈ cs.head?, isBareKeyChar c = true := by
  cases h with
  | nil => exact nofun
  | @cons key _ _ _ _ hkey =>
      cases key with
      | nil => exact absurd rfl hkey.1
      | cons c key => exact Line.forall_head?_cons (hkey.2 c List.mem_cons_self)

theorem parse?_of_lines {text : String} (h : Lines text.toList es)
    (hnodup : (es.map Prod.fst).Nodup) : parse? text = some es := by
  have hkeys : (([] ++ es).map Prod.fst).Nodup := hnodup
  have hread := statements?_lines h hkeys (length_le_of_lines h)
  have hhead := head?_lines h
  rw [parse?]
  split
  · next heq => cases hhead '\uFEFF' (by rw [heq]; rfl)
  · exact hread

end RuleInduction.Toml
