import JsonSchema.Proofs.Documents
import JsonSchema.Proofs.Objects
import JsonSchema.Proofs.Unnamed

/-!
# Whole sessions that are tracked

A session that loads documents from their roots ends in a track, if what is requested, preloaded or
served under a URI is the same document (`Agree`, `exists_track`).
-/

namespace JsonSchema.Load

variable {contents : String → Json} {w : Track contents} {loader : Loader}

/-- Loading documents one after the other in a new session. -/
def loadAll (loader : Loader) (requests : List (Document × Location)) : Load (List Schema) := do
  newSession loader
  requests.mapM fun (document, location) => load loader document location

/-- Documents are requested at their roots, and what is requested, preloaded or served under a URI is
the same. -/
structure Agree (contents : String → Json) (loader : Loader) (requests : List (Document × Location)) :
    Prop where
  requested : ∀ request ∈ requests, Location.root request.2.documentUri = .ok request.2 ∧
    request.1.value.IsProper ∧ request.1.value = contents request.2.documentUri
  preloaded : ∀ entry ∈ loader.preloaded, entry.2.value = contents entry.1
  delivered : Delivers contents loader

/-- A document that was loaded from its root. -/
def IsRequested (stock : Stock) (request : Document × Location) (schema : Schema) : Prop :=
  ∃ stored, stock.documents.lookup request.2.documentUri = some stored ∧
    stored.document.value = request.1.value ∧ stock.Made schema ∧
    (stock.IsClean → Loaded stock request.2 request.1.value stored.draft schema)

theorem IsRequested.mono {stock later : Stock} {request : Document × Location} {schema : Schema}
    (grown : stock.Grown later) (requested : IsRequested stock request schema) :
    IsRequested later request schema := by
  obtain ⟨stored, known, same, made, loaded⟩ := requested
  exact ⟨stored, grown.session.documents _ _ known, same, made.mono grown,
    fun clean => (loaded (clean.anti grown)).mono grown⟩

theorem runs_loadVia (loads : Cache → NodeLoader)
    (tracked : ∀ cache, LoadsTracked contents (loads cache)) {document : Document}
    {location : Location} (root : Location.root location.documentUri = .ok location)
    (proper : document.value.IsProper)
    (content : document.value = contents location.documentUri) :
    Runs (loadVia loader loads document location) w
      (fun schema w' => IsRequested w'.stock (document, location) schema) := by
  have walked : ∀ {w₁ : Track contents} {stored : StoredDocument}, w ≤ w₁ →
      w₁.documents.lookup location.documentUri = some stored →
      Runs (do loads (← get).cache document.value location stored.draft) w₁
        (fun schema w' => IsRequested w'.stock (document, location) schema) := by
    intro w₁ stored up known
    have same : stored.document.value = document.value :=
      (w₁.contained _ _ known).trans content.symm
    refine after_get_bind ?_
    refine after_mono (tracked _ w₁ _ _ _ ?_) ?_
    · rw [← same]
      exact ⟨.root known root, fun _ => .root known root⟩
    · rintro schema w₂ up₂ ⟨made, loaded, _⟩
      exact ⟨stored, (Track.grown up₂).session.documents _ _ known, same, made, loaded⟩
  have place : Uri.withoutFragment location.documentUri = .ok location.documentUri := by
    obtain ⟨_, _, _, without⟩ := isFormed_root root
    exact without
  unfold loadVia
  refine after_bind (runs_document location.documentUri) ?_
  rintro found w₁ _ ⟨rfl, key, keyed, looked⟩
  rw [place] at keyed
  cases keyed
  cases found with
  | some stored => exact walked le_rfl looked
  | none =>
    have empty : location.pointer.isEmpty = true := by
      obtain ⟨_, _, pointer, _⟩ := isFormed_root root
      rw [pointer]
      rfl
    dsimp only
    rw [if_pos empty]
    refine after_bind (runs_addDocument place looked proper content) ?_
    rintro _ w₂ up₂ ⟨known, _⟩
    exact walked up₂ known

theorem runs_load (registry : loader.registry = .default) (delivers : Delivers contents loader)
    {document : Document} {location : Location}
    (root : Location.root location.documentUri = .ok location) (proper : document.value.IsProper)
    (content : document.value = contents location.documentUri) :
    Runs (load loader document location) w
      (fun schema w' => IsRequested w'.stock (document, location) schema) :=
  runs_loadVia (fun cache => loadNode loader (depthBound loader cache document.value))
    (fun _ => runs_loadNode registry delivers _) root proper content

/-- Every document is kept with the draft that is detected from it. -/
def AreDetected (loader : Loader) (documents : Documents) : Prop :=
  ∀ uri stored, documents.lookup uri = some stored →
    stored.draft = draftOf loader stored.document.value

theorem AreDetected.added {documents documents' : Documents} {key : String} {document : Document}
    (detected : AreDetected loader documents)
    (known : documents'.lookup key = some { document, draft := draftOf loader document.value })
    (others : ∀ other, other ≠ key → documents'.lookup other = documents.lookup other) :
    AreDetected loader documents' := by
  intro uri stored found
  by_cases same : uri = key
  · rw [same, known] at found
    cases found
    rfl
  · rw [others uri same] at found
    exact detected uri stored found

/-- The preloaded documents of a new session. -/
theorem runs_preloaded {entries : List (String × Document)}
    (detected : AreDetected loader w.documents)
    (unknown : ∀ entry ∈ entries, w.documents.lookup entry.1 = none)
    (distinct : (Members.keys entries).Nodup)
    (places : ∀ entry ∈ entries, Uri.withoutFragment entry.1 = .ok entry.1)
    (values : ∀ entry ∈ entries, entry.2.value.IsProper)
    (same : ∀ entry ∈ entries, entry.2.value = contents entry.1) :
    Runs (entries.forM fun (uri, document) =>
      addDocument uri document (draftOf loader document.value)) w
      (fun _ w' => AreDetected loader w'.documents) := by
  induction entries generalizing w with
  | nil => exact after_pure detected
  | cons first rest ih =>
    obtain ⟨uri, document⟩ := first
    obtain ⟨outside, distinct⟩ := List.nodup_cons.1 distinct
    change Runs (addDocument uri document (draftOf loader document.value) >>= fun _ =>
      rest.forM _) w _
    refine after_bind (runs_addDocument (places _ List.mem_cons_self)
      (unknown _ List.mem_cons_self) (values _ List.mem_cons_self) (same _ List.mem_cons_self)) ?_
    rintro _ w₁ _ ⟨known, others, _⟩
    refine ih (detected.added known others) (fun entry mem => ?_) distinct
      (fun entry mem => places entry (List.mem_cons_of_mem _ mem))
      (fun entry mem => values entry (List.mem_cons_of_mem _ mem))
      (fun entry mem => same entry (List.mem_cons_of_mem _ mem))
    have different : entry.1 ≠ uri := by
      rintro rfl
      exact outside (List.mem_map.2 ⟨entry, mem, rfl⟩)
    rw [others entry.1 different]
    exact unknown entry (List.mem_cons_of_mem _ mem)

/-- The track of a session that has done nothing. -/
def Track.empty (contents : String → Json) : Track contents where
  stock := ⟨.empty, []⟩
  reachable := .refl
  contained := nofun
  made := fun _ _ found => nomatch found
  bound := fun _ _ _ _ found => nomatch found
  numbered := nofun
  distinct := nofun
  nodes := fun _ => nofun
  stationed := nofun
  placed := fun _ mem => absurd mem List.not_mem_nil

/-- A new session knows the preloaded documents. -/
theorem runs_newSession (ready : loader.IsReady)
    (same : ∀ entry ∈ loader.preloaded, entry.2.value = contents entry.1) :
    Runs (newSession loader) (Track.empty contents)
      (fun _ w' => AreDetected loader w'.documents) := by
  refine after_modify_bind le_rfl rfl ?_
  exact runs_preloaded (fun _ _ found => nomatch found) (fun _ _ => rfl) ready.distinct
    ready.places ready.values same

/-- A session that loads documents ends in a track. -/
theorem exists_track (ready : loader.IsReady) {requests : List (Document × Location)}
    (agree : Agree contents loader requests) {schemas : List Schema} {session : Session}
    (run : (loadAll loader requests).run.run .empty = (.ok schemas, session)) :
    ∃ w : Track contents, w.session = session ∧
      List.Forall₂ (IsRequested w.stock) requests schemas := by
  have loaded : ∀ w : Track contents, Runs
      (requests.mapM fun (document, location) => load loader document location) w
      (fun schemas w' => List.Forall₂ (IsRequested w'.stock) requests schemas) := by
    intro w
    refine after_mapM (Q := fun request schema (w' : Track contents) =>
      IsRequested w'.stock request schema) ?_ requests ?_
    · intro request schema w₁ w₂ up requested
      exact requested.mono (Track.grown up)
    · rintro ⟨document, location⟩ mem w' _
      obtain ⟨root, proper, content⟩ := agree.requested _ mem
      exact runs_load ready.registry agree.delivered root proper content
  have whole : Runs (loadAll loader requests) (Track.empty contents)
      (fun schemas w' => List.Forall₂ (IsRequested w'.stock) requests schemas) :=
    after_bind (runs_newSession ready agree.preloaded) (fun _ w' _ _ => loaded w')
  obtain ⟨w, _, same, requested⟩ := whole.of_ok run
  exact ⟨w, same, requested⟩

/-- A session that keeps one document, which has no identifiers for any draft. -/
theorem areUnnamed_of_keys {uri : String} (keys : Members.keys w.documents = [uri])
    (normal : Uri.IsNormal uri)
    (unnamed : ∀ draft ∈ Draft.all, (contents uri).isUnnamed draft.idKey = true) :
    AreUnnamed w.documents := by
  have single : ∀ {other stored}, w.documents.lookup other = some stored → other = uri := by
    intro other stored found
    have mem := List.mem_map_of_mem (f := Prod.fst) (Members.mem_of_lookup found)
    change other ∈ Members.keys w.documents at mem
    rw [keys] at mem
    exact List.mem_singleton.1 mem
  refine ⟨fun other known => ?_, fun other stored found => ?_⟩
  · obtain ⟨stored, found⟩ := Option.isSome_iff_exists.1 known
    rw [single found]
    exact normal
  · rw [w.contained other stored found, single found]
    exact unnamed stored.draft (by cases stored.draft <;> decide)

end JsonSchema.Load

/-! ## The list again -/

namespace JsonSchema.Load.Linked

/-- The one document of the session. -/
def contents (_ : String) : Json :=
  document.value

theorem agree : Agree contents loader [(document, root)] where
  requested := List.forall_mem_singleton.2 ⟨by decide +kernel, isProper, rfl⟩
  preloaded := nofun
  delivered _ _ _ served _ := nomatch served

/-- The session ends without errors, with the schema of the document at its root. -/
theorem exists_loaded : ∃ schema session,
    (loadAll loader [(document, root)]).run.run .empty = (.ok [schema], session) ∧
      session.report.hasErrors = false ∧ schema.location? = some root ∧
      schema.isReference = false ∧ Members.keys session.documents = [root.documentUri] := by
  have ends : (loading.1.toOption.any fun schemas => schemas.length = 1 &&
      !loading.2.report.hasErrors && Members.keys loading.2.documents = [root.documentUri] &&
      schemas.all fun schema => !schema.isReference && schema.location? = some root) = true := by
    decide +kernel
  obtain ⟨schemas, loaded, holds⟩ := (Option.any_eq_true _ _).1 ends
  simp only [Bool.and_eq_true, Bool.not_eq_true', decide_eq_true_eq, List.all_eq_true] at holds
  obtain ⟨⟨⟨single, clean⟩, keys⟩, all⟩ := holds
  obtain ⟨schema, rfl⟩ := List.length_eq_one_iff.1 single
  obtain ⟨plain, here⟩ := all schema List.mem_cons_self
  have whole : loading = (.ok [schema], loading.2) :=
    Prod.mk.eta.symm.trans (congrArg (·, loading.2) (toOption_ok loaded))
  refine ⟨schema, loading.2, ?_, clean, here, plain, keys⟩
  rw [← whole]
  unfold loading
  rfl

theorem areUnnamed (w : Track contents)
    (keys : Members.keys w.documents = [root.documentUri]) : AreUnnamed w.documents :=
  areUnnamed_of_keys keys (by decide +kernel) (by decide +kernel)

end JsonSchema.Load.Linked
