/-
  DocumentDb — loading documents in place of what is stored.

  * Loading with the default options is truncating and then inserting, whatever the documents are:
    both walk through the batch alike (`insertEach_eq_loadEach`).
  * A document that the unique indexes separate from all stored ones is let in by them
    (`InStep.validate_of_separates`), so asking changes nothing; and an id that a document
    has needs no making.
  * **`load_agrees`** puts this together: for documents with ids, of which no two share a unique
    key, the options make no difference.
-/
import DocumentDb.Proofs.Collection.Separation
import DocumentDb.Proofs.Document.Id

namespace DocumentDb

section

variable [Collator]

namespace Collection

variable {c : Collection}

/-! ## What lets a document in -/

theorem separates_place {id : String} {new d d' : Document} :
    (c.place id new).registry.Separates d d' ↔ c.registry.Separates d d' := by
  rw [Registry.separates_iff, Registry.separates_iff (r := c.registry)]
  unfold Collection.place
  rw [Registry.specs_record]

/-- Where the keys let the document in, it does not matter whether they are asked. -/
theorem enter_eq {id : String} {d : Document}
    (h : c.cell? id = none → c.registry.validate id d = .ok ()) (checked : Bool) :
    c.enter checked id d = c.enter true id d := by
  unfold enter
  split
  · rfl
  · next hn =>
    rw [if_pos rfl, h (Option.not_isSome_iff_eq_none.1 hn)]
    cases checked <;> rfl

variable [Std.TransCmp Collator.weigh]

/-- A document whose keys are apart from those of all stored documents passes. -/
theorem InStep.validate_of_separates (h : c.InStep) {d : Document}
    (apart : ∀ e ∈ c.stored, c.registry.Separates e.2.document d) (id : String) :
    c.registry.validate id d = .ok () := by
  refine (Registry.validate_eq_ok_iff_admits fun i hi => (h.indexes i hi).consistent).2
    (h.admits_iff.2 ?_)
  refine List.forall_mem_map.2 fun e he _ => ?_
  exact Registry.separates_comm.1 (apart e he)

/-! ## Loading -/

/-- Documents that have ids, and keys apart from each other and from those of the stored documents,
    are loaded alike with all options. -/
theorem loadEach_eq_of_separates (options : LoadOptions) {documents : List Document} (h : c.InStep)
    (named : ∀ d ∈ documents, d.id?.isSome = true) (apart : documents.Pairwise c.registry.Separates)
    (fresh : ∀ e ∈ c.stored, ∀ d ∈ documents, c.registry.Separates e.2.document d)
    (source : IdSource) (position : Nat) :
    c.loadEach options source position documents = c.loadEach {} source position documents := by
  induction documents generalizing c position with
  | nil => rfl
  | cons d rest ih =>
    obtain ⟨hid, hnamed⟩ := List.forall_mem_cons.1 named
    obtain ⟨id, hid⟩ := Option.isSome_iff_exists.1 hid
    obtain ⟨hfirst, hrest⟩ := List.pairwise_cons.1 apart
    have htext := Document.id?_eq_some_iff.1 hid
    have hpass : c.registry.validate id d = .ok () :=
      h.validate_of_separates (fun e he => fresh e he d List.mem_cons_self) id
    have hlater : ∀ e ∈ c.stored, ∀ d' ∈ rest, c.registry.Separates e.2.document d' :=
      fun e he d' hd' => fresh e he d' (List.mem_cons_of_mem _ hd')
    rw [loadEach, loadEach, IdSource.identify_of_text _ htext, IdSource.identify_of_text _ htext]
    simp only [bind, Except.bind, enter_eq fun _ => hpass]
    rcases enter_cases c true id d with ⟨hfree, -, he⟩ | ⟨fault, he, hrecoverable, -⟩
    · simp only [he, pure, Except.pure]
      -- what is stored next is the document itself, from which the rest of the batch is apart
      rw [ih (h.place hfree d) hnamed (hrest.imp separates_place.2) ?_]
      intro e he d' hd'
      rw [separates_place]
      rcases List.mem_append.1 he with he | he
      · exact hlater e he d' hd'
      · rw [List.mem_singleton.1 he]
        exact hfirst d' hd'
    · simp only [he, hrecoverable, if_true, ih h hnamed hrest hlater]

/-- **Loading documents with the default options is truncating and then inserting them: the same
    collection, the same ids made, and the same report.  Where every document has an id and no two
    of them share a key of a unique index, so is loading them with any options.** -/
theorem load_agrees (c : Collection) (source : IdSource) (documents : List Document) :
    c.load source documents {} = c.truncate.insertMany source documents ∧
      ((∀ d ∈ documents, d.id?.isSome = true) → documents.Pairwise c.registry.Separates →
        ∀ options, c.load source documents options = c.truncate.insertMany source documents) := by
  have hdefault : c.load source documents {} = c.truncate.insertMany source documents :=
    (insertEach_eq_loadEach documents source 0 c.truncate).symm
  refine ⟨hdefault, fun named apart options => ?_⟩
  rw [← hdefault]
  have hapart : documents.Pairwise c.truncate.registry.Separates :=
    apart.imp fun h => List.forall_mem_map.2 h
  exact loadEach_eq_of_separates options (inStep_truncate c) named hapart nofun source 0

end Collection

end

/-- The second document has an id that is taken by then, and the third has no key of the index. -/
theorem Collection.labelled_load_agrees :
    let documents : List Document := [.ofList [("_id", .text "1"), ("label", .text "a")],
      .ofList [("_id", .text "1"), ("label", .text "b")], .ofList [("_id", .text "2")]]
    ((labelled.load ⟨fun _ => "", 0⟩ documents {}).2.2.map (·.accepted)).toOption =
      some ["1", "2"] ∧
    ∀ options, labelled.load ⟨fun _ => "", 0⟩ documents options =
      labelled.truncate.insertMany ⟨fun _ => "", 0⟩ documents := by
  intro documents
  have hnamed : ∀ d ∈ documents, d.id?.isSome = true := by decide
  have hapart : documents.Pairwise labelled.registry.Separates := by decide
  exact ⟨rfl, (load_agrees labelled ⟨fun _ => "", 0⟩ documents).2 hnamed hapart⟩

end DocumentDb
