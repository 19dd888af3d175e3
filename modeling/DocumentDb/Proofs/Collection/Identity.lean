/-
  DocumentDb — documents keep the id under which they are stored.

  * `Collection.Identified`: the id in every stored document is the one under which it is stored.
  * Whatever is stored anew has its id in it, and changes that spare the id keep it there
    (`Reachable.identified`).
  * **`identified_iff_sparesId`**: an update refuses changes that name the id, but not those with a
    key that leads through it.
-/
import DocumentDb.Proofs.Collection.Contents
import DocumentDb.Proofs.Document.Id

namespace DocumentDb

/-- Changes that spare the id leave it where it is, if an update goes on with them. -/
theorem Document.SparesId.preserves {changes : Document} (h : changes.SparesId) :
    changes.Preserves fun id d => d.id? = some id := by
  intro hid hvalid id d r hd hr
  rcases h with hname | ⟨key, hkey, hinvalid⟩ | hspare
  · rw [hid] at hname
    cases hname
  · rw [hvalid key hkey] at hinvalid
    cases hinvalid
  · exact (Document.id?_congr (Document.field?_id_of_mergeInto hspare hr)).trans hd

namespace Collection

section

variable [Collator] {c : Collection} {d : Document}

/-- The id in every stored document is the one under which it is stored. -/
def Identified (c : Collection) : Prop := ∀ e ∈ c.stored, e.2.document.id? = some e.1

theorem Reachable.identified {P : Document → Prop} (hP : ∀ changes, P changes → changes.SparesId)
    (h : c.Reachable (Step.UpdatesOnly P)) : c.Identified :=
  h.eachStored (fun id d => Document.id?_set_id d id) fun changes hc => (hP changes hc).preserves

/-! ## Changes that take an id away -/

/-- The only document of a collection is found, and the changes are merged into it. -/
theorem update_only (hr : c.registry = .empty) (hm : c.matcher = .equality) {changes : Document}
    {e : String × Cell} (hs : c.stored = [e]) (hid : changes.hasKey idKey = false)
    {trial : Document} (htrial : Document.empty.merge changes = .ok trial)
    (hd : e.2.document.merge changes = .ok d) :
    (c.update .empty changes).1 = (c.replace e.1 d).1 := by
  obtain ⟨m, hsearch, hfound⟩ := search_empty_filter hr hm
  unfold update
  rw [hid, htrial, hsearch]
  simp only [Bool.false_eq_true, if_false]
  rw [hfound, hs, updateEach_of_no_index hr hd]
  rfl

/-- An update that is not refused, and has a key that leads through the id, takes a
    document's id away. -/
theorem exists_not_identified {P : Document → Prop} {changes : Document} (hP : P changes)
    (h : ¬ changes.SparesId) : ∃ c : Collection, c.Reachable (Step.UpdatesOnly P) ∧
    ¬ c.Identified := by
  simp only [Document.SparesId, not_or, not_exists, not_forall, not_and, Bool.not_eq_true,
    Bool.not_eq_false, not_not] at h
  obtain ⟨hid, hvalid, key, hkey, hleads⟩ := h
  -- one document is stored, with nothing but its id
  let d := Document.single idKey (.text "1")
  let c := (Collection.new "" {} .equality).place "1" d
  have hd : d.field? idKey = some (.text "1") := by simp [d]
  have hc : c.Reachable (Step.UpdatesOnly P) :=
    (Reachable.new "" {} .equality).place_of_no_index (fun _ _ => trivial) rfl rfl hd
  obtain ⟨trial, htrial⟩ := (exists_merge_iff (d := .empty) (by simp) changes).2 hvalid
  obtain ⟨r, hr⟩ :=
    (exists_merge_iff (d := d) (fun _ _ => Document.field?_single_text_ne) changes).2 hvalid
  have hu : (c.update .empty changes).1 = (c.replace "1" r).1 :=
    update_only (c := c) rfl rfl (e := ("1", ⟨0, d⟩)) rfl hid htrial hr
  refine ⟨c.step (.operation (.update .empty changes)), .step _ hc hP, fun h => ?_⟩
  have hstored : ("1", (⟨0, r⟩ : Cell)) ∈
      (c.step (.operation (.update .empty changes))).stored := by
    show _ ∈ (c.update .empty changes).1.stored
    rw [hu]
    exact List.mem_singleton_self _
  have hfree : d.field? key = none := by
    have hne : idKey ≠ key := by
      rintro rfl
      rw [hid] at hkey
      cases hkey
    rw [Document.field?_single, if_neg hne]
  have hlost := Document.id?_of_mergeInto_eq_none hid hr (Or.inr ⟨key, hkey, hleads, hfree⟩)
  rw [h _ hstored] at hlost
  cases hlost

/-- **Documents keep the id under which they are stored just where all changes of updates are
    refused, or have no key that leads to the id.** -/
theorem identified_iff_sparesId (P : Document → Prop) :
    (∀ c : Collection, c.Reachable (Step.UpdatesOnly P) → c.Identified) ↔
      ∀ changes, P changes → changes.SparesId := by
  constructor
  · intro h changes hP
    by_contra hno
    obtain ⟨c, hc, hn⟩ := exists_not_identified hP hno
    exact hn (h c hc)
  · intro hP c hc
    exact hc.identified hP

end

/-- A document, after an update with a key that leads through the id. -/
def renamed : Collection :=
  ((Collection.new "notes" {} .equality).step
      (.operation (.insertMany ⟨fun _ => "", 0⟩ [.single "_id" (.text "1")]))).step
    (.operation (.update .empty (.single "_id.x" (.int 1))))

/-- The document is still stored under its id, but no longer has it. -/
theorem renamed_not_identified : renamed.Reachable Step.IsOperation ∧
    renamed.stored.map (fun e => (e.1, e.2.document.id?)) = [("1", none)] ∧
    ¬ renamed.Identified := by
  have hstored : renamed.stored.map (fun e => (e.1, e.2.document.id?)) = [("1", none)] := by decide
  refine ⟨?_, hstored, fun h => ?_⟩
  · unfold renamed
    refine .step _ (.step _ (.new "notes" {} .equality) ?_) ?_
    · trivial
    · trivial
  · obtain ⟨e, he, hid⟩ :=
      List.mem_map.1 (hstored ▸ List.mem_singleton_self ("1", (none : Option String)))
    have hlost := (h e he).symm.trans (congrArg Prod.snd hid)
    cases hlost

end Collection

end DocumentDb
