import RuleInduction.Proofs.Folder
import RuleInduction.Proofs.Settings.Document
import RuleInduction.Settings.Document

namespace RuleInduction.Settings

variable {s : Settings} {f g : Folder} {path text : String} {place : Way}

theorem save_of_leads (h : Folder.Leads f path g place) (hwrite : s.write? = some text) :
    s.save f path = (.ok (), g.set place (.file text)) := by
  obtain ⟨parent, hparent, hfolders⟩ := h.parent
  have hmake : makeParent f path = (.ok (), g) := by
    rw [makeParent, hparent]
    simp only [hfolders]
  rw [save, hwrite]
  simp only [hmake, writeFile, h.write?]

theorem save_of_not_fits (h : ¬ s.Fits) (f : Folder) (path : String) :
    ∃ reason, s.save f path = (.error (.unparsable path reason), f) := by
  have hwrite : s.write? = none := by
    cases hsome : s.write? with
    | none => rfl
    | some text => exact absurd (fits_of_write? hsome) h
  exact ⟨"a number is too large", by rw [save, hwrite]⟩

theorem load_save (s : Settings) (f : Folder) (path : String) :
    (s.Fits → s.NumbersOnly → f.Writable path → ∃ text g, s.save f path = (.ok (), g) ∧
      g.read? path = some text ∧ load g path = .ok s ∧ parse text = .ok s) ∧
    (¬ s.Fits → ∃ reason, s.save f path = (.error (.unparsable path reason), f)) := by
  refine ⟨fun hfits hnumbers hwritable => ?_, fun h => save_of_not_fits h f path⟩
  obtain ⟨text, hwrite, hparse⟩ := parse?_of_fits hfits hnumbers
  obtain ⟨g, place, hleads⟩ := hwritable
  refine ⟨text, g.set place (.file text), save_of_leads hleads hwrite, hleads.read? text, ?_,
    hparse _⟩
  rw [load, hleads.read? text]
  exact hparse path

-- A fraction of one and a count of one are told apart, and the folder on the path is made.
theorem load_save_new_folder :
    let s : Settings := {
      criterion := some .mse, maxLiterals := some 3, maxPredicates := some (.fraction 1.0)
      minExamples := .count 1, sampleRatio := 0.75, seed := some 7 }
    let large : Settings := { clauses := 2 ^ 63 }
    (s.Fits ∧ s.NumbersOnly ∧ Folder.empty.Writable "conf/learner.toml" ∧
      ∃ text g, s.save .empty "conf/learner.toml" = (.ok (), g) ∧
        g.read? "conf/learner.toml" = some text ∧ load g "conf/learner.toml" = .ok s ∧
        parse text = .ok s) ∧
    ¬ large.Fits ∧ ∃ reason, large.save .empty "learner.toml" =
      (.error (.unparsable "learner.toml" reason), .empty) := by
  intro s large
  have hfits : s.Fits := by
    constructor <;> simp [s, greatestInteger]
  have hnumbers : s.NumbersOnly := by
    constructor
    · rintro x hx
      cases hx
      decide +kernel
    · rintro x hx
      cases hx
    · decide +kernel
  have hwritable : Folder.empty.Writable "conf/learner.toml" := by
    have hconf : Folder.Proper "conf" := by constructor <;> decide
    have hfile : Folder.Proper "learner.toml" := by constructor <;> decide
    have habsent : Folder.empty.get? ["conf"] = none := by decide
    have hopens : Folder.Opens .empty [] ["conf"] (Folder.empty.set ["conf"] .folder) ["conf"] :=
      .make rfl hconf habsent (.done (Folder.get?_set_self hconf .empty [] .folder))
    refine ⟨_, _, .intro (by decide) (show _ = ["conf"] ++ ["learner.toml"] by decide) hfile hopens ?_⟩
    rw [Folder.get?_set_of_ne (by decide)]
    decide
  have hlarge : ¬ large.Fits := fun h => absurd h.clauses (by decide)
  exact ⟨⟨hfits, hnumbers, hwritable, (load_save s .empty _).1 hfits hnumbers hwritable⟩, hlarge,
    (load_save large .empty _).2 hlarge⟩

end RuleInduction.Settings
