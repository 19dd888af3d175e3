/-
  DocumentDb — where a find that uses an index leaves out documents.

  * Where one key field leads through another, some values asked for make a probe that misses a
    document which has them (`exists_deceives`).  Of two such fields the later one decides.  If it
    leads through the earlier, writing it replaces what is asked for at the earlier one
    (`deceives_of_later_below`).  If the earlier leads through it, it can be asked for a document
    that has an empty array at the earlier one (`deceives_of_earlier_below`).
  * **`agrees_iff`**: so a find that uses an index agrees with a scan, whatever is stored, just when
    no key field of the index leads through another (or no filter can ask for one of its fields).
-/
import DocumentDb.Proofs.Collection.Agreement
import DocumentDb.Proofs.Document.Wide
import DocumentDb.Proofs.Filter.Asking

namespace DocumentDb

open DocumentDb.Filter (isOperatorKey asking)
open Document (shelf)
open Value (wide)

namespace KeySpec

/-- In a key field that a probe supplies, it has no value in common with a document. -/
def Misses (spec : KeySpec) (probe d : Document) : Prop :=
  ∃ f ∈ spec.fields, probe.containsField f.path = true ∧
    ∀ w ∈ d.resolve f.segments, ∀ v ∈ probe.resolve f.segments, (w == v) = false

/-- A document has, in each key field, a value asked for there, but the probe made of these
    misses it. -/
def Deceives (spec : KeySpec) (ask : String → Value) (d : Document) : Prop :=
  (∀ f ∈ spec.fields, (ask f.path).isUsable = true ∧ d.Meets f.path (ask f.path)) ∧
    ∀ equalities : List (String × Value),
      (∀ f ∈ spec.fields, equalities.lookup f.path = some (ask f.path)) →
        ∃ p, Plan.probe equalities .empty spec.fields = .ok p ∧ spec.Misses p d

/-- The segments of the paths of all key fields. -/
def segments (spec : KeySpec) : List String := (spec.fields.map (·.segments)).flatten

/-- A document in which the path of every key field reaches each of some values. -/
def everywhere (spec : KeySpec) (found : List Value) : Document :=
  shelf spec.segments (wide spec.segments found spec.segments.length)

variable {spec : KeySpec}

theorem meets_everywhere {found : List Value} {f : KeyField} (hf : f ∈ spec.fields) {v : Value}
    (hv : v ∈ found) (hnull : v.isNull = false) : (spec.everywhere found).Meets f.path v := by
  have hsub : f.segments.Sublist spec.segments :=
    List.sublist_flatten_of_mem (List.mem_map_of_mem hf)
  obtain ⟨first, rest, hs⟩ := Path.exists_segments f.path
  rw [show f.segments = first :: rest from hs] at hsub
  have hlength : rest.length ≤ spec.segments.length := Nat.le_of_succ_le hsub.length_le
  have hreach : v ∈ (spec.everywhere found).reach first rest := by
    unfold everywhere
    rw [Fields.reach_of_field?, Document.field?_shelf, if_pos (hsub.subset List.mem_cons_self)]
    exact Value.mem_reach_wide hv (fun s hm => hsub.subset (List.mem_cons_of_mem _ hm)) hlength
  refine ⟨_, Document.candidates_eq_ok f.valid hs, ?_⟩
  rw [Filter.equalsAny, hnull]
  exact List.any_eq_true.2 ⟨v, hreach, BEq.rfl⟩

/-! ## Probes that miss -/

/-- A probe with a truth value below a key field misses the document that has the truth value
    there. -/
theorem misses_of_descend_below {p : Document} {f : KeyField} (hf : f ∈ spec.fields) (hp : p.Plain)
    {key : String} {path : List String} {b : Bool}
    (h : (Value.document p).descend (f.segments ++ key :: path) = some (.bool b)) :
    spec.Misses p (spec.everywhere [.bool b]) := by
  rw [Value.descend_append] at h
  obtain ⟨value, hvalue, hbelow⟩ := Option.bind_eq_some_iff.1 h
  obtain ⟨below, rfl⟩ := Value.exists_of_descend_cons hbelow
  have hresolve : p.resolve f.segments = [.document below] := Document.resolve_of_descend hvalue
  refine ⟨f, hf, Document.containsField_of_descend hp f.valid hvalue rfl, ?_⟩
  intro w hw v hv
  rw [hresolve] at hv
  rw [List.mem_singleton.1 hv]
  refine Bool.eq_false_iff.2 ?_
  intro heq
  have hkind : w.kind = .document := Value.kind_eq_of_beq heq
  cases w with
  | document d =>
    -- the document found is a shelf, and leads to an array where the probe has the truth value
    have hwalk := Document.mem_walk_of_mem_resolve hw nofun
    obtain ⟨depth, rfl⟩ :
        ∃ depth, d = shelf spec.segments (wide spec.segments [.bool b] depth) := by
      rcases Value.mem_walk_shelf hwalk with h | ⟨rest, h⟩
      · exact ⟨_, Value.document.inj h⟩
      · exact Value.eq_shelf_of_mem_walk h
    obtain ⟨found, hfound, hsame⟩ := Value.descend_of_beq (BEq.symm heq) hbelow
    have harray := Value.kind_of_descend_shelf hfound
    rw [← Value.kind_eq_of_beq hsame] at harray
    cases harray
  | _ => cases hkind

/-- A probe with an empty array at a key field misses the documents that have a value there. -/
theorem misses_of_descend_empty {p d : Document} {f : KeyField} (hf : f ∈ spec.fields)
    (hp : p.Plain) (h : (Value.document p).descend f.segments = some (.array [])) {v : Value}
    (hv : v ∈ d.resolve f.segments) (hnull : v ≠ .null) : spec.Misses p d := by
  have hresolve : p.resolve f.segments = [.null] := Document.resolve_of_descend h
  refine ⟨f, hf, Document.containsField_of_descend hp f.valid h rfl, ?_⟩
  intro w hw v' hv'
  rw [hresolve] at hv'
  rw [List.mem_singleton.1 hv']
  refine Bool.eq_false_iff.2 ?_
  intro heq
  rw [Value.beq_null.1 heq] at hw
  rcases d.resolve_null_or f.segments with hd | hd
  · rw [hd] at hv
    exact hnull (List.mem_singleton.1 hv)
  · exact hd.2 hw

/-! ## One key field through another -/

section
variable {fields rest : List KeyField} {f g : KeyField}

theorem path_ne_of_append (h : spec.fields = fields ++ rest) (hg : g ∈ rest) :
    ∀ f ∈ fields, f.path ≠ g.path := by
  have hdistinct := spec.distinct
  rw [h, List.map_append, List.nodup_append'] at hdistinct
  intro f hf he
  exact hdistinct.2.2 (List.mem_map_of_mem hf) (he ▸ List.mem_map_of_mem hg)

/-- If no array is asked for before some last fields that are apart, the probe has what is
    asked for at these. -/
theorem exists_probe (ask : String → Value) (h : spec.fields = fields ++ rest)
    (ha : rest.Pairwise fun f g => Value.Apart f.segments g.segments)
    (ho : ∀ f ∈ fields, Value.Open (some (ask f.path))) {equalities : List (String × Value)}
    (hl : ∀ f ∈ spec.fields, equalities.lookup f.path = some (ask f.path)) :
    ∃ p, Plan.probe equalities .empty spec.fields = .ok p ∧ p.Plain ∧
      ∀ g ∈ rest, (Value.document p).descend g.segments = some (ask g.path) := by
  rw [h] at hl ⊢
  obtain ⟨hfields, hrest⟩ := List.forall_mem_append.1 hl
  have hopen : ∀ f ∈ fields, ∃ value, equalities.lookup f.path = some value ∧
      Value.Open (some value) := by
    intro f hf
    exact ⟨ask f.path, hfields f hf, ho f hf⟩
  have hsome : ∀ g ∈ rest, (equalities.lookup g.path).isSome = true := by
    intro g hg
    rw [hrest g hg, Option.isSome_some]
  obtain ⟨p, hprobe, hplain, hvalues⟩ := Plan.probe_of_append hopen ha hsome
  refine ⟨p, hprobe, hplain, ?_⟩
  intro g hg
  rw [hvalues g hg, hrest g hg]

/-- A later key field that leads through an earlier one replaces what is asked for there. -/
theorem deceives_of_later_below (h : spec.fields = fields ++ rest)
    (ha : rest.Pairwise fun f g => Value.Apart f.segments g.segments) (hf : f ∈ fields)
    (hg : g ∈ rest) {key : String} {path : List String}
    (hp : g.segments = f.segments ++ key :: path) :
    spec.Deceives (fun _ => .bool true) (spec.everywhere [.bool true]) := by
  constructor
  · intro f hf
    exact ⟨rfl, meets_everywhere hf (List.mem_singleton_self _) rfl⟩
  · intro equalities hl
    have hopen : ∀ f ∈ fields, Value.Open (some (.bool true)) := fun _ _ => Value.open_bool true
    obtain ⟨p, hprobe, hplain, hvalues⟩ := exists_probe (fun _ => .bool true) h ha hopen hl
    have hbelow := hvalues g hg
    rw [hp] at hbelow
    have hf' : f ∈ spec.fields := h ▸ List.mem_append_left _ hf
    exact ⟨p, hprobe, misses_of_descend_below hf' hplain hbelow⟩

/-- A later key field that an earlier one leads through can be asked for a document with an
    empty array there. -/
theorem deceives_of_earlier_below (h : spec.fields = fields ++ rest)
    (ha : rest.Pairwise fun f g => Value.Apart f.segments g.segments) (hf : f ∈ fields)
    (hg : g ∈ rest) {key : String} {path : List String}
    (hp : f.segments = g.segments ++ key :: path) :
    ∃ ask d, spec.Deceives ask d := by
  let hollow := Value.write none (key :: path) (.array [])
  let ask := fun path => if path = g.path then hollow else .bool true
  have hother : ∀ f ∈ fields, ask f.path = .bool true := by
    intro f hf
    exact if_neg (path_ne_of_append h hg f hf)
  have hcases : ∀ path, ask path ∈ [.bool true, hollow] ∧ (ask path).isUsable = true ∧
      (ask path).isNull = false := by
    intro path
    by_cases he : path = g.path
    · rw [show ask path = hollow from if_pos he]
      exact ⟨List.mem_cons_of_mem _ List.mem_cons_self, rfl, rfl⟩
    · rw [show ask path = .bool true from if_neg he]
      exact ⟨List.mem_cons_self, rfl, rfl⟩
  let d := spec.everywhere [.bool true, hollow]
  have hmeets : ∀ f ∈ spec.fields, d.Meets f.path (ask f.path) := by
    intro f hf
    obtain ⟨hmem, -, hnull⟩ := hcases f.path
    exact meets_everywhere hf hmem hnull
  have hf' : f ∈ spec.fields := h ▸ List.mem_append_left _ hf
  -- the document has the truth value in the earlier field, so not only null
  obtain ⟨w, hw, heq⟩ := (hmeets f hf').exists_mem_resolve (hcases f.path).2.1
  have hnull : w ≠ .null := by
    rintro rfl
    rw [hother f hf] at heq
    cases heq
  refine ⟨ask, d, fun f hf => ⟨(hcases f.path).2.1, hmeets f hf⟩, ?_⟩
  intro equalities hl
  have hopen : ∀ f ∈ fields, Value.Open (some (ask f.path)) := by
    intro f hf
    rw [hother f hf]
    exact Value.open_bool true
  obtain ⟨p, hprobe, hplain, hvalues⟩ := exists_probe ask h ha hopen hl
  have hempty : (Value.document p).descend f.segments = some (.array []) := by
    rw [hp, Value.descend_append, hvalues g hg, show ask g.path = hollow from if_pos rfl]
    exact Value.descend_write (Value.clear_none _)
  exact ⟨p, hprobe, misses_of_descend_empty hf' hplain hempty hw hnull⟩

end

/-- **Where one key field leads through another, some values asked for deceive the index.** -/
theorem exists_deceives (h : ¬ spec.Apart) : ∃ ask d, spec.Deceives ask d := by
  obtain ⟨before, f, rest, hfields, ha, g, hg, hfg⟩ :=
    exists_split_of_not_pairwise fun hp => h (apart_of_pairwise hp)
  rw [List.append_cons] at hfields
  have hf : f ∈ before ++ [f] := List.mem_append_right _ (List.mem_singleton_self f)
  have hne : f.segments ≠ g.segments := by
    intro he
    have hpath := congrArg Path.join he
    unfold KeyField.segments at hpath
    rw [Path.join_segments, Path.join_segments] at hpath
    exact path_ne_of_append hfields hg f hf hpath
  rw [Value.Apart, not_and_or, not_not, not_not] at hfg
  rcases hfg with ⟨below, hbelow⟩ | ⟨below, hbelow⟩
  · cases below with
    | nil => exact absurd ((List.append_nil _).symm.trans hbelow) hne
    | cons key path => exact ⟨_, _, deceives_of_later_below hfields ha hf hg hbelow.symm⟩
  · cases below with
    | nil => exact absurd ((List.append_nil _).symm.trans hbelow).symm hne
    | cons key path => exact deceives_of_earlier_below hfields ha hf hg hbelow.symm

/-! ## What the index leaves out -/

theorem Misses.not_shares {probe d : Document} (h : spec.Misses probe d) :
    ¬ spec.Shares probe d := by
  intro hshares
  obtain ⟨f, hf, hc, hmiss⟩ := h
  obtain ⟨w, hw, v, hv, heq⟩ := hshares f hf hc
  exact Bool.eq_false_iff.1 (hmiss w hw v hv) heq

variable [Collator]

/-- A find that uses an index over the specification finds what a scan finds, each document once. -/
def Agrees (spec : KeySpec) : Prop :=
  ∀ c : Collection, c.InStep → c.matcher = .equality → ∀ (filter : Document) (i : Index),
    c.pick? filter = some i → i.spec = spec → ∀ options options' : FindOptions,
      options.skipIndex = false → options'.skipIndex = true →
      ∀ all, c.find filter options' = .ok all →
        ∃ r, c.find filter options = .ok r ∧ r.found.Perm all.found ∧ (r.found.map (·.1)).Nodup

end KeySpec

namespace Collection

section
variable [Collator] {spec : KeySpec} {d : Document}

/-- A collection without documents that has one index. -/
def indexed (spec : KeySpec) : Collection :=
  { new "notes" {} .equality with
    registry := Registry.empty.register (.new 0 spec), nextSerial := 1 }

/-- A collection of one document that has one index. -/
def solitary (spec : KeySpec) (d : Document) : Collection := (indexed spec).place "1" d

variable [Std.TransCmp Collator.weigh]

theorem inStep_solitary (spec : KeySpec) (d : Document) : (solitary spec d).InStep := by
  have hmove : Move False (new "notes" {} .equality) (indexed spec) :=
    .register spec (.new 0 spec) rfl
  exact ((inStep_new "notes" {} .equality).move hmove).place rfl d

theorem InStep.not_mem_lookup {c : Collection} (h : c.InStep) {i : Index}
    (hi : i ∈ c.registry.indexes) {probe : Document} {id : String} {cell : Cell}
    (hc : c.cell? id = some cell) (hm : i.spec.Misses probe cell.document) :
    id ∉ i.lookup probe := by
  intro hid
  obtain ⟨cell', hmem, -, hshares⟩ := (h.mem_lookup_iff_shares hi).1 hid
  have hsame : c.cell? id = some cell' := (mem_iff_lookup h.distinct).1 hmem
  rw [hc] at hsame
  cases hsame
  exact hm.not_shares hshares

omit [Std.TransCmp Collator.weigh] in
theorem found_in_lookup {c : Collection} {filter probe : Document} {options : FindOptions}
    {i : Index} {r : FindResult} {plan : Plan} (hplan : c.explain filter options = .ok plan)
    (haccess : plan.access = .byIndex i probe) (hr : c.find filter options = .ok r) :
    ∀ e ∈ r.found, e.1 ∈ i.lookup probe := by
  obtain ⟨m, hm, he⟩ := bind_eq_ok_iff.1 hr
  cases he
  obtain ⟨hexplain, tried, htried, -, hfound⟩ := search_eq_ok_iff.1 hm
  rw [hplan] at hexplain
  rw [← Except.ok.inj hexplain, haccess] at htried
  intro e he
  rw [(accepted_eq_ok_iff.1 hfound).2] at he
  rw [← ids_of_fetch htried]
  exact List.mem_map_of_mem (List.mem_of_mem_filter he)

omit [Std.TransCmp Collator.weigh] in
/-- A scan finds the only document, if the filter admits it. -/
theorem find_solitary (spec : KeySpec) {filter : Document} (h : filter.admits d = .ok true) :
    ∃ all, (solitary spec d).find filter .skipping = .ok all ∧ all.found = [("1", ⟨1, d⟩)] := by
  have hjudge : (solitary spec d).matcher d filter = .ok true := h
  have hstored : (solitary spec d).stored = [("1", ⟨1, d⟩)] := rfl
  obtain ⟨all, hall, hfound⟩ := exists_scan (c := solitary spec d) filter fun e he => by
    rw [List.mem_singleton.1 he]
    exact ⟨true, hjudge⟩
  refine ⟨all, hall, ?_⟩
  rw [hfound, hstored]
  refine List.filter_eq_self.2 fun e he => ?_
  rw [List.mem_singleton.1 he]
  exact accepts_iff.2 hjudge

/-- Values asked for that deceive an index over a specification refute its agreement. -/
theorem not_agrees_of_deceives {ask : String → Value} (h : spec.Deceives ask d)
    (hop : ∀ f ∈ spec.fields, isOperatorKey f.path = false) : ¬ spec.Agrees := by
  intro hagrees
  obtain ⟨hasked, hprobes⟩ := h
  have hop' : ∀ path ∈ spec.paths, isOperatorKey path = false := List.forall_mem_map.2 hop
  have husable : ∀ path ∈ spec.paths, (ask path).isUsable = true :=
    List.forall_mem_map.2 fun f hf => (hasked f hf).1
  have hlookup : ∀ f ∈ spec.fields,
      (asking ask spec.paths).usable.lookup f.path = some (ask f.path) :=
    fun f hf => Filter.lookup_usable_asking hop' husable (List.mem_map_of_mem hf)
  have hadmits : (asking ask spec.paths).admits d = .ok true :=
    Filter.admits_asking hop' (List.forall_mem_map.2 fun f hf => (hasked f hf).2)
  -- the planner picks the only index
  let i := (Index.new 0 spec).record "1" (spec.entries d)
  have hspec : i.spec = spec := Index.spec_record ..
  have hpick : (solitary spec d).pick? (asking ask spec.paths) = some i := by
    have hserves : Plan.serves (asking ask spec.paths).usable i = true :=
      List.all_eq_true.2 fun f hf => Option.isSome_iff_exists.2 ⟨_, hlookup f (hspec ▸ hf)⟩
    unfold pick?
    rw [show (solitary spec d).registry.indexes = [i] from rfl, List.filter_cons_of_pos hserves]
    rfl
  obtain ⟨probe, hprobe, hmiss⟩ := hprobes _ hlookup
  have hbuilt : Plan.probe (asking ask spec.paths).usable .empty i.spec.fields = .ok probe := by
    rw [hspec]
    exact hprobe
  have hmiss' : i.spec.Misses probe d := by
    rw [hspec]
    exact hmiss
  have huse : ({} : FindOptions).skipIndex = false := rfl
  obtain ⟨plan, hplan, haccess⟩ := explain_of_pick? huse hpick hbuilt
  obtain ⟨all, hall, hfound⟩ := find_solitary spec hadmits
  obtain ⟨r, hr, hperm, -⟩ := hagrees (solitary spec d) (inStep_solitary spec d) rfl _ i hpick hspec
    {} .skipping huse rfl all hall
  have hmem : ("1", ⟨1, d⟩) ∈ r.found := hperm.symm.subset (hfound ▸ List.mem_singleton_self _)
  have hin : i ∈ (solitary spec d).registry.indexes := List.mem_singleton_self i
  exact (inStep_solitary spec d).not_mem_lookup hin rfl hmiss'
    (found_in_lookup hplan haccess hr _ hmem)

/-- **A find that uses an index agrees with a scan, whatever is stored, just when no key field of
    the index leads through another, or no filter can ask for one of them.** -/
theorem agrees_iff (spec : KeySpec) :
    spec.Agrees ↔ spec.Apart ∨ ∃ f ∈ spec.fields, isOperatorKey f.path = true := by
  constructor
  · intro hagrees
    by_contra hno
    obtain ⟨ha, hop⟩ := not_or.1 hno
    obtain ⟨ask, d, h⟩ := KeySpec.exists_deceives ha
    exact not_agrees_of_deceives h (fun f hf => Bool.eq_false_iff.2 fun h => hop ⟨f, hf, h⟩) hagrees
  · rintro (ha | ⟨f, hf, hop⟩) c h hm filter i hi rfl options options' hskip hskip' all hall
    · exact find_agrees_of_apart h hm hi ha hskip hskip' hall
    · have hserves := List.all_eq_true.1 (List.mem_filter.1 (Plan.mem_of_widest? hi)).2 f hf
      obtain ⟨v, hv⟩ := Option.isSome_iff_exists.1 hserves
      have hlisted := (List.mem_filter.1 (mem_of_lookup hv)).1
      rw [not_isOperatorKey_of_mem_constraints hlisted] at hop
      cases hop

end

/-- A specification in which one key field leads through the other. -/
def nestedSpec : KeySpec :=
  ⟨[⟨"a", .ascending, by decide⟩, ⟨"a.b", .ascending, by decide⟩], false, "nested",
    by simp, by simp⟩

theorem nestedSpec_not_agrees : ¬ nestedSpec.Agrees := by
  rw [agrees_iff]
  rintro (ha | ⟨f, hf, hop⟩)
  · unfold KeySpec.Apart at ha
    exact absurd ha (by decide)
  · revert f
    decide

/-- A document that has a number and an embedded document under `a`, and an index of both. -/
def nested : Collection :=
  let entries := Document.ofList [("b", .int 1), ("c", .int 2)]
  ((Collection.new "notes" {} .equality).step (.operation (.ensureSpec nestedSpec))).step
    (.operation (.insertMany ⟨fun _ => "", 0⟩
      [.ofList [("_id", .text "1"), ("a", .array [.int 5, .document entries])]]))

/-- The document meets the filter, but a find that uses the index does not find it. -/
theorem nested_find_leaves_out :
    let filter := Document.ofList [("a", .int 5), ("a.b", .int 1)]
    (nested.find filter .skipping).toOption.map (·.ids) = some ["1"] ∧
      (nested.find filter {}).toOption.map (·.ids) = some [] := by
  decide +kernel

end Collection

end DocumentDb
