/-
  DocumentDb — inserting a document and removing it again.

  * A document that is stored and taken away again leaves the documents and the indexes as they were
    (`discard_place`).
  * **`insert_remove_restores`**: so does a document that is inserted and removed by its id, which
    leads to it alone.
-/
import DocumentDb.Proofs.Collection.Anchored
import DocumentDb.Proofs.Collection.ById
import DocumentDb.Proofs.Collection.Remove

namespace DocumentDb

namespace Collection

section

variable [Collator] [Std.TransCmp Collator.weigh] {c c' : Collection} {id : String}
  {source source' : IdSource} {d : Document} {report : BatchReport}

omit [Std.TransCmp Collator.weigh] in
/-- A document that is accepted goes in last, under its id and with it. -/
theorem insert_eq_place (hinsert : c.insert source d = (c', source', .ok report))
    (haccepted : report.accepted = [id]) :
    c.cell? id = none ∧ c' = c.place id (d.set idKey (.text id)) := by
  have hload : c.loadEach {} source 0 [d] = (c', source', .ok report) := by
    rw [← insertEach_eq_loadEach]
    exact hinsert
  rcases loadEach_cases {} c source 0 d [] with
    ⟨own, later, -, hfresh, -, rfl, he⟩ | ⟨failure, later, -, -, -, rfl, he⟩
  · rw [hload] at he
    have hreport : (.ok report : Except Fault BatchReport) = .ok (.accept own {}) :=
      congrArg (·.2.2) he
    cases hreport
    cases haccepted
    exact ⟨hfresh, congrArg (·.1) he⟩
  · rw [hload] at he
    have hreport : (.ok report : Except Fault BatchReport) = .ok (.refuse failure {}) :=
      congrArg (·.2.2) he
    cases hreport
    cases haccepted

omit [Std.TransCmp Collator.weigh] in
theorem cell?_place (fresh : c.cell? id = none) (d : Document) :
    (c.place id d).cell? id = some ⟨c.nextSerial, d⟩ :=
  (lookup_append_fresh fresh _ id).trans (if_pos rfl)

/-- A document that is stored and taken away again leaves the documents and the indexes as
    they were. -/
theorem discard_place (hs : c.Sound) (ha : c.Anchored) (fresh : c.cell? id = none) (d : Document) :
    (c.place id d).discard id =
      ({ c with retired := c.retired ++ [⟨c.nextSerial, d⟩], nextSerial := c.nextSerial + 1 },
        .ok ()) := by
  have hothers : c.stored.filter (·.1 != id) = c.stored :=
    List.filter_eq_self.2 fun e he =>
      bne_iff_ne.2 (ne_of_not_mem_keys (lookup_eq_none_iff.1 fresh) he)
  have hstored : (c.place id d).stored.filter (·.1 != id) = c.stored := by
    unfold place
    rw [List.filter_append, hothers]
    simp
  have hregistry : (c.place id d).registry.only (· != id) = c.registry :=
    Registry.only_record hs (fun i hi => ha.keysOf_eq_nil fresh hi) d
  rw [(hs.place id d).discard_eq, hstored, cell?_place fresh, hregistry]
  rfl

/-- **A document that is inserted and removed again by its id leaves the documents, in their order,
    and all indexes exactly as they were.**  Only the next serial number is another, and live
    handles may still show the document. -/
theorem insert_remove_restores (h : c.Reachable Step.IsOperation) (hm : c.matcher = .equality)
    (hinsert : c.insert source d = (c', source', .ok report)) (haccepted : report.accepted = [id])
    {d' : Document} (hid : d'.id? = some id) :
    c'.removeDocument d' =
      ({ c with retired := c.retired ++ [⟨c.nextSerial, d.set idKey (.text id)⟩],
                nextSerial := c.nextSerial + 1 }, .ok [id]) := by
  obtain ⟨hfresh, rfl⟩ := insert_eq_place hinsert haccepted
  have hown := d.id?_set_id id
  have hstep := h.inStep.place hfresh (d.set idKey (.text id))
  have hnames := h.namesOnly.place (.of_id? hown)
  obtain ⟨r, hr, hfound⟩ := find_byId hstep hm hnames (cell?_place hfresh _) hown
  rw [removeDocument, hid]
  dsimp only
  rw [remove_of_find hr, hfound, List.map_singleton, hstep.sound.removeEach_cons,
    discard_place h.sound h.anchored hfresh]
  rfl

end

/-- A document with another label goes in under an id that is made for it, and out again. -/
theorem labelled_insert_remove_restores :
    ∃ c' source' report, labelled.insert ⟨fun _ => "3", 0⟩ (.single "label" (.text "b")) =
        (c', source', .ok report) ∧ report.accepted = ["3"] ∧
      (c'.removeDocument (Filter.byId "3")).2 = .ok ["3"] ∧
      (c'.removeDocument (Filter.byId "3")).1.stored = labelled.stored ∧
      (c'.removeDocument (Filter.byId "3")).1.registry = labelled.registry := by
  obtain ⟨c', source', report, hinsert, haccepted⟩ : ∃ c' source' report,
      labelled.insert ⟨fun _ => "3", 0⟩ (.single "label" (.text "b")) = (c', source', .ok report) ∧
        report.accepted = ["3"] := ⟨_, _, _, rfl, rfl⟩
  have h := labelled_reachable.mono fun _ => isOperation_of_isChecked
  have hid : (Filter.byId "3").id? = some "3" := rfl
  refine ⟨c', source', report, hinsert, haccepted, ?_⟩
  rw [insert_remove_restores h rfl hinsert haccepted hid]
  exact ⟨rfl, rfl, rfl⟩

end Collection

end DocumentDb
