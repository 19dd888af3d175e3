/-
  DocumentDb — storing one document.

  * `IdSource.Names` is the id under which a document is to be stored, and `IdSource.identify_cases`
    what settling it gives.
  * `Collection.enter_cases`: a document goes in if its id is free and, where that is checked, its
    keys are as well; else the fault is one with which a batch goes on.
  * `Collection.loadEach_cases` is all that one document of a batch can do; documents are inserted
    as they are loaded with the default options (`insertEach_eq_loadEach`).
  * So loading never fails, whatever the options, and neither does inserting: a document that cannot
    go in is refused for a reason with which a batch goes on (`exists_load_eq_ok`,
    `exists_insertMany_eq_ok`).
-/
import DocumentDb.Collection.Write
import DocumentDb.Proofs.Document.Write
import DocumentDb.Proofs.Index.Rekeyed

namespace DocumentDb

/-! ## Ids -/

/-- The id of a document that is to be stored: its own if that is a text, the next one of the source
    if the document has none or null in its place. -/
def IdSource.Names (source : IdSource) (d : Document) (id : String) : Prop :=
  d.field? idKey = some (.text id) ∨
    (d.field? idKey = none ∨ d.field? idKey = some .null) ∧ id = source.label (source.made + 1)

namespace IdSource

variable {source : IdSource} {generate : Bool} {d d' : Document} {id id' : String} {fault : Fault}

theorem Names.unique (h : source.Names d id) (h' : source.Names d id') : id = id' := by
  rcases h with h | ⟨h | h, rfl⟩ <;> rcases h' with h' | ⟨h' | h', rfl⟩ <;>
    simp [h] at h' <;> simp [h']

theorem identify_of_text (generate : Bool) (h : d.field? idKey = some (.text id)) :
    source.identify generate d = (.ok (id, d), source) := by
  unfold identify
  rw [h]
  rfl

/-- A document gets its id written in it; or it has something else than an id in its place, or no id
    is to be made for it. -/
theorem identify_cases (source : IdSource) (generate : Bool) (d : Document) :
    (∃ id, source.Names d id ∧ (source.identify generate d).1 = .ok (id, d.set idKey (.text id))) ∨
      ∃ fault, (source.identify generate d).1 = .error fault ∧ fault.isRecoverable = true ∧
        d.id? = none ∧ (generate = true → ∀ id, ¬ source.Names d id) := by
  cases hid : d.field? idKey with
  | none =>
    cases generate with
    | true => exact Or.inl ⟨_, Or.inr ⟨Or.inl hid, rfl⟩, by unfold identify; rw [hid]; rfl⟩
    | false =>
      exact Or.inr
        ⟨.idMissing, by unfold identify; rw [hid]; rfl, rfl, by simp [Document.id?, hid], nofun⟩
  | some value =>
    cases value with
    | text id =>
      refine Or.inl ⟨id, Or.inl hid, ?_⟩
      rw [identify_of_text generate hid, Document.set_of_field? hid]
    | null =>
      cases generate with
      | true => exact Or.inl ⟨_, Or.inr ⟨Or.inr hid, rfl⟩, by unfold identify; rw [hid]; rfl⟩
      | false =>
        refine Or.inr ⟨.idMissing, by unfold identify; rw [hid]; rfl, rfl, ?_, nofun⟩
        simp [Document.id?, hid, Value.text?]
    | _ =>
      refine Or.inr ⟨.idNotText _, by unfold identify; rw [hid]; rfl, rfl, ?_, fun _ id h => ?_⟩
      · simp [Document.id?, hid, Value.text?]
      · simp [Names, hid] at h

theorem id?_of_identify_ok (h : (source.identify generate d).1 = .ok (id, d')) :
    d'.id? = some id := by
  rcases source.identify_cases generate d with ⟨id', -, hok⟩ | ⟨fault, herror, -⟩
  · obtain ⟨rfl, rfl⟩ := Prod.mk.inj (Except.ok.inj (hok.symm.trans h))
    exact Document.id?_set_id ..
  · cases herror.symm.trans h

theorem of_identify_error (h : (source.identify generate d).1 = .error fault) :
    d.id? = none ∧ fault.isRecoverable = true := by
  rcases source.identify_cases generate d with ⟨id, -, hok⟩ | ⟨fault', herror, hrecoverable, hid, -⟩
  · cases hok.symm.trans h
  · cases herror.symm.trans h
    exact ⟨hid, hrecoverable⟩

end IdSource

/-! ## The document -/

namespace Collection

variable [Collator]

theorem enter_cases (c : Collection) (check : Bool) (id : String) (d : Document) :
    (c.cell? id = none ∧ (check = true → c.registry.validate id d = .ok ()) ∧
      c.enter check id d = .ok (c.place id d)) ∨
    ∃ fault, c.enter check id d = .error fault ∧ fault.isRecoverable = true ∧
      ((c.cell? id).isSome = true ∨ check = true ∧ c.registry.validate id d ≠ .ok ()) := by
  unfold enter
  split
  · next hs => exact Or.inr ⟨_, rfl, rfl, Or.inl hs⟩
  · next hn =>
    have hfresh := Option.not_isSome_iff_eq_none.1 hn
    cases check with
    | false => exact Or.inl ⟨hfresh, by simp, rfl⟩
    | true =>
      rw [if_pos rfl]
      cases hv : c.registry.validate id d with
      | ok u => exact Or.inl ⟨hfresh, fun _ => rfl, rfl⟩
      | error fault =>
        exact Or.inr ⟨fault, rfl, Registry.isRecoverable_of_validate hv, Or.inr ⟨rfl, by simp⟩⟩

/-- The first document of a batch goes in, under its id and with it, or is refused for a reason with
    which the batch goes on. -/
theorem loadEach_cases (options : LoadOptions) (c : Collection) (source : IdSource) (position : Nat)
    (d : Document) (rest : List Document) :
    (∃ id later, source.Names d id ∧ c.cell? id = none ∧
      (options.violationCheck = true → c.registry.validate id (d.set idKey (.text id)) = .ok ()) ∧
      later = (c.place id (d.set idKey (.text id))).loadEach options
        (source.identify options.ensureKeys d).2 (position + 1) rest ∧
      c.loadEach options source position (d :: rest) =
        (later.1, later.2.1, later.2.2.map (.accept id))) ∨
    ∃ (failure : Failure) (later : _), failure.position = position ∧
      failure.fault.isRecoverable = true ∧
      (options.ensureKeys = true → ∀ id, source.Names d id → (c.cell? id).isSome = true ∨
        options.violationCheck = true ∧ c.registry.validate id (d.set idKey (.text id)) ≠ .ok ()) ∧
      later = c.loadEach options (source.identify options.ensureKeys d).2 (position + 1) rest ∧
      c.loadEach options source position (d :: rest) =
        (later.1, later.2.1, later.2.2.map (.refuse failure)) := by
  rw [loadEach]
  dsimp only
  rcases source.identify_cases options.ensureKeys d with
    ⟨id, hnames, hid⟩ | ⟨fault, hid, hrecoverable, -, hnone⟩
  · rcases enter_cases c options.violationCheck id (d.set idKey (.text id)) with
      ⟨hfresh, hvalid, he⟩ | ⟨fault, he, hrecoverable, hwhy⟩
    · refine Or.inl ⟨id, _, hnames, hfresh, hvalid, rfl, ?_⟩
      simp only [hid, he, bind, Except.bind, pure, Except.pure]
    · refine Or.inr ⟨⟨position, (d.set idKey (.text id)).id?, fault⟩, _, rfl, hrecoverable,
        fun _ id' hnames' => ?_, rfl, ?_⟩
      · rw [hnames'.unique hnames]
        exact hwhy
      · simp only [hid, he, bind, Except.bind, hrecoverable, if_true]
  · refine Or.inr ⟨⟨position, d.id?, fault⟩, _, rfl, hrecoverable, fun hkeys id h => ?_, rfl, ?_⟩
    · exact absurd h (hnone hkeys id)
    · simp only [hid, bind, Except.bind, hrecoverable, if_true]

/-- Documents are inserted as they are loaded with the default options. -/
theorem insertEach_eq_loadEach (documents : List Document) (source : IdSource) (position : Nat)
    (c : Collection) : c.insertEach source position documents =
      c.loadEach {} source position documents := by
  induction documents generalizing c source position with
  | nil => rfl
  | cons d rest ih =>
    rw [insertEach, loadEach]
    rcases hi : source.identify true d with ⟨fault | ⟨id, d'⟩, source'⟩
    · obtain ⟨hid, hrecoverable⟩ := IdSource.of_identify_error (congrArg Prod.fst hi)
      simp only [bind, Except.bind, hrecoverable, if_true, hid, ih]
    · have hid := IdSource.id?_of_identify_ok (congrArg Prod.fst hi)
      cases he : c.enter true id d' with
      | ok c' => simp only [bind, Except.bind, pure, Except.pure, he, ih]
      | error fault => simp only [bind, Except.bind, he, hid, ih]

/-! ## A batch never fails -/

theorem exists_loadEach_eq_ok {options : LoadOptions} (documents : List Document)
    (source : IdSource) (position : Nat) (c : Collection) :
    ∃ report, (c.loadEach options source position documents).2.2 = .ok report ∧
      ∀ failure ∈ report.failures, failure.fault.isRecoverable = true := by
  induction documents generalizing c source position with
  | nil => exact ⟨{}, rfl, nofun⟩
  | cons d rest ih =>
    rcases loadEach_cases options c source position d rest with
      ⟨id, later, -, -, -, rfl, he⟩ | ⟨failure, later, -, hrecoverable, -, rfl, he⟩
    · obtain ⟨report, hok, hall⟩ := ih (source.identify options.ensureKeys d).2 (position + 1)
        (c.place id (d.set idKey (.text id)))
      rw [he]
      exact ⟨report.accept id, map_eq_ok_iff.2 ⟨report, hok, rfl⟩, hall⟩
    · obtain ⟨report, hok, hall⟩ := ih (source.identify options.ensureKeys d).2 (position + 1) c
      rw [he]
      exact ⟨report.refuse failure, map_eq_ok_iff.2 ⟨report, hok, rfl⟩,
        List.forall_mem_cons.2 ⟨hrecoverable, hall⟩⟩

theorem exists_load_eq_ok (c : Collection) (source : IdSource) (documents : List Document)
    (options : LoadOptions) : ∃ report, (c.load source documents options).2.2 = .ok report ∧
      ∀ failure ∈ report.failures, failure.fault.isRecoverable = true :=
  exists_loadEach_eq_ok documents source 0 c.truncate

theorem exists_insertMany_eq_ok (c : Collection) (source : IdSource) (documents : List Document) :
    ∃ report, (c.insertMany source documents).2.2 = .ok report ∧
      ∀ failure ∈ report.failures, failure.fault.isRecoverable = true := by
  unfold insertMany
  rw [insertEach_eq_loadEach]
  exact exists_loadEach_eq_ok documents source 0 c

end Collection

end DocumentDb
