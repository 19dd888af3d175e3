/-
  DocumentDb — what a removal leaves.

  * `Collection.without c gone`: the collection without some stored documents and their keys.
    Taking away some documents and then others is taking away all of them (`without_without`).
  * Removing stored documents one after the other takes away just these (`Sound.removeEach_eq`).
  * **`remove_removes_found`**: a removal takes away what a find gives, in its order, or fails as
    the find does.
-/
import DocumentDb.Proofs.Collection.Consistency

namespace DocumentDb

namespace Collection

section

/-- The collection without some stored documents and their keys. -/
def without (c : Collection) (gone : List (String × Cell)) : Collection :=
  { c with
    stored := c.stored.filter fun e => e.1 ∉ gone.map (·.1)
    registry := c.registry.only fun id => id ∉ gone.map (·.1)
    retired := c.retired ++ gone.map (·.2) }

variable {c : Collection} {gone : List (String × Cell)} {id : String} {cell : Cell}

theorem without_without (c : Collection) (gone more : List (String × Cell)) :
    (c.without gone).without more = c.without (gone ++ more) := by
  have hkept : ∀ id, (decide (id ∉ more.map (·.1)) && decide (id ∉ gone.map (·.1))) =
      decide (id ∉ (gone ++ more).map (·.1)) := by
    intro id
    rw [← Bool.decide_and, decide_eq_decide, List.map_append, List.mem_append, not_or]
    exact and_comm
  unfold without
  dsimp only
  rw [List.filter_filter, Registry.only_only, List.append_assoc, ← List.map_append]
  simp only [hkept]

variable [Collator] [Std.TransCmp Collator.weigh]

namespace Sound

theorem without_nil (h : c.Sound) : c.without [] = c := by
  have hstored : (c.stored.filter fun e => e.1 ∉ ([] : List (String × Cell)).map (·.1)) =
      c.stored :=
    List.filter_eq_self.2 fun _ _ => rfl
  have hregistry : c.registry.only (fun id => id ∉ ([] : List (String × Cell)).map (·.1)) =
      c.registry :=
    Registry.only_eq_self h fun _ _ _ _ => rfl
  unfold Collection.without
  rw [hstored, hregistry, List.map_nil, List.append_nil]

theorem discard_eq_without (h : c.Sound) (hc : c.cell? id = some cell) :
    c.discard id = (c.without [(id, cell)], .ok ()) := by
  have hkept : (· != id) = fun other => decide (other ∉ [(id, cell)].map (·.1)) := by
    funext other
    by_cases he : other = id <;> simp [he]
  have hstored : c.stored.filter (·.1 != id) =
      c.stored.filter fun e => e.1 ∉ [(id, cell)].map (·.1) :=
    congrArg (fun kept => c.stored.filter fun e => kept e.1) hkept
  unfold Collection.without
  rw [h.discard_eq, hc, hkept, hstored]
  rfl

/-! ## One document after the other -/

/-- Removing stored documents one after the other leaves the collection without them. -/
theorem removeEach_eq (h : c.Sound) (hcurrent : ∀ e ∈ gone, c.cell? e.1 = some e.2)
    (hdistinct : (gone.map (·.1)).Nodup) :
    c.removeEach (gone.map (·.1)) = (c.without gone, .ok (gone.map (·.1))) := by
  induction gone generalizing c with
  | nil => rw [h.without_nil]; rfl
  | cons e rest ih =>
    obtain ⟨id, cell⟩ := e
    obtain ⟨hid, hrest⟩ := List.nodup_cons.1 hdistinct
    obtain ⟨hc, hlater⟩ := List.forall_mem_cons.1 hcurrent
    have hcurrent' : ∀ e ∈ rest, (c.discard id).1.cell? e.1 = some e.2 := by
      intro e he
      rw [h.cell?_discard, if_neg (ne_of_not_mem_keys hid he)]
      exact hlater e he
    rw [List.map_cons, h.removeEach_cons, ih (h.discard id) hcurrent' hrest,
      h.discard_eq_without hc, without_without]
    rfl

end Sound

/-! ## Removing what a find gives -/

omit [Std.TransCmp Collator.weigh] in
theorem remove_of_find {filter : Document} {r : FindResult} (h : c.find filter {} = .ok r) :
    c.remove filter = c.removeEach (r.found.map (·.1)) := by
  obtain ⟨m, hm, hr⟩ := bind_eq_ok_iff.1 h
  cases hr
  rw [remove, hm]

/-- **A removal fails as a find does, and then changes nothing; or it takes away the documents that
    the find gives, in its order, with all their keys.**  The other documents stay, in their order,
    and so do their keys in every index. -/
theorem remove_removes_found (h : c.InStep) (filter : Document) :
    (∀ fault, c.find filter {} = .error fault → c.remove filter = (c, .error fault)) ∧
    ∀ r, c.find filter {} = .ok r →
      c.remove filter = (c.without r.found, .ok (r.found.map (·.1))) ∧
      (r.found.map (·.1)).Nodup ∧ (∀ e ∈ r.found, e ∈ c.stored) ∧
      (∀ id ∈ r.found.map (·.1), c.registry.Rekeyed (c.without r.found).registry id fun _ => []) ∧
      ∀ id ∉ r.found.map (·.1), c.registry.Keeps (c.without r.found).registry id := by
  refine ⟨fun fault hfind => ?_, fun r hfind => ?_⟩
  · rw [remove, search_of_find hfind]
  · obtain ⟨m, hm, hr⟩ := bind_eq_ok_iff.1 hfind
    cases hr
    have hcurrent : ∀ e ∈ m.found, c.cell? e.1 = some e.2 := fun e he =>
      current_of_mem_found h.distinct hm he
    have hdistinct := found_nodup h.distinct hm
    refine ⟨?_, hdistinct, fun e he => mem_stored_of_mem_found hm he,
      fun id hid => Registry.rekeyed_only h.sound (by simpa using hid),
      fun id hid => Registry.keeps_only h.sound (decide_eq_true hid)⟩
    rw [remove_of_find hfind]
    exact h.sound.removeEach_eq hcurrent hdistinct

end

/-- The document with a label is removed, with its key, and the other one stays. -/
theorem labelled_remove_removes_found :
    labelled.InStep ∧ ∃ r, labelled.find (Filter.present "label" true) {} = .ok r ∧
      labelled.remove (Filter.present "label" true) = (labelled.without r.found, .ok ["1"]) ∧
      (labelled.without r.found).stored.map (·.1) = ["2"] ∧
      labelled.registry.Rekeyed (labelled.without r.found).registry "1" (fun _ => []) ∧
      labelled.registry.Keeps (labelled.without r.found).registry "2" := by
  have h := Reachable.inStep (labelled_reachable.mono fun _ => isOperation_of_isChecked)
  obtain ⟨r, hr, hids⟩ : ∃ r, labelled.find (Filter.present "label" true) {} = .ok r ∧
      r.found.map (·.1) = ["1"] := ⟨_, rfl, rfl⟩
  have hstored : (labelled.without r.found).stored.map (·.1) = ["2"] := by
    show (labelled.stored.filter fun e => e.1 ∉ r.found.map (·.1)).map (·.1) = ["2"]
    rw [hids]
    decide
  obtain ⟨hremove, -, -, hgone, hkept⟩ :=
    (remove_removes_found h (Filter.present "label" true)).2 r hr
  rw [hids] at hremove hgone hkept
  exact ⟨h, r, hr, hremove, hstored, hgone "1" (by decide), hkept "2" (by decide)⟩

end Collection

end DocumentDb
