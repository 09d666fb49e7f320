import JsonSchema.Proofs.Courses
import JsonSchema.Proofs.Depth

/-!
# Calls of the client

A session stores a document for a URI once and never asks the client for it again. What loading does
to the stored documents is made of calls of the client, one after the other (`Load.Calls`), and each
call is one that is allowed at its moment (`Load.MayFetch`). For a document is only fetched where the
target of a reference is located, under a URI without fragment that no stored document has
(`proceeds_locate`), and everything else leaves documents and calls alone (`IsTame`).

So in a session that answers any requests, be they successful or not, every call is allowed, every
document that was fetched is stored from then on, and no URI is fetched twice
(`session_fetches_once`).
-/

namespace JsonSchema

/-- The loader with another client. -/
def Loader.withClient (loader : Loader) (client : DocumentClient) : Loader :=
  { loader with client }

namespace Load

variable {α β : Type} {loader : Loader} {session later : Session} {documents : Documents}

/-! ## Calls -/

/-- A call of the client. -/
structure Call where
  /-- The URI that the client is passed. -/
  uri : String
  /-- The documents that are stored at that moment. -/
  documents : Documents
  /-- What the client says. -/
  reply : Except String Document

namespace Call

/-- What is stored for a reply, nothing for a failure. -/
def stored? (loader : Loader) (call : Call) : Option StoredDocument :=
  match call.reply with
  | .ok document => some { document, draft := draftOf loader document.value }
  | .error _ => none

/-- The documents that are stored after a call. -/
def after (loader : Loader) (call : Call) : Documents :=
  match call.stored? loader with
  | some stored => Members.put call.documents call.uri stored
  | none => call.documents

theorem grows_after {call : Call} (unknown : call.documents.lookup call.uri = none) :
    Grows call.documents (call.after loader) := by
  unfold after
  split
  · exact Session.grows_put unknown
  · exact fun _ _ found => found

theorem lookup_after {call : Call} {stored : StoredDocument}
    (answered : call.stored? loader = some stored) :
    (call.after loader).lookup call.uri = some stored := by
  unfold after
  rw [answered]
  dsimp only
  rw [Members.lookup_put, if_pos rfl]

end Call

/-- A URI may be fetched when some documents are stored: fetching is on, none of them has the URI, and
the URI has no fragment and was not generated. -/
structure MayFetch (loader : Loader) (documents : Documents) (uri : String) : Prop where
  allowed : loader.options.allowRemoteFetch = true
  unknown : documents.lookup uri = none
  plain : '#' ∉ uri.toList
  real : ¬ Uri.generatedBase.toList <+: uri.toList

/-- Calls of the client, one after the other, lead from stored documents to others. -/
inductive Calls (loader : Loader) : Documents → List Call → Documents → Prop
  | nil (documents : Documents) : Calls loader documents [] documents
  | cons {call : Call} {calls : List Call} {documents : Documents}
    (may : MayFetch loader call.documents call.uri)
    (reply : loader.client.fetch call.uri = call.reply)
    (rest : Calls loader (call.after loader) calls documents) :
    Calls loader call.documents (call :: calls) documents

theorem Calls.append {first middle last : Documents} {calls calls' : List Call}
    (before : Calls loader first calls middle) (behind : Calls loader middle calls' last) :
    Calls loader first (calls ++ calls') last := by
  induction before with
  | nil => exact behind
  | cons may reply _ ih => exact .cons may reply (ih behind)

theorem Calls.grows {documents' : Documents} {calls : List Call}
    (called : Calls loader documents calls documents') : Grows documents documents' := by
  induction called with
  | nil => exact fun _ _ found => found
  | cons may _ _ ih => exact fun uri stored found => ih _ _ (Call.grows_after may.unknown _ _ found)

/-! ## Sessions between calls -/

/-- A session comes to another one by calls of the client, which it writes down. -/
def Proceeds (loader : Loader) (session later : Session) : Prop :=
  ∃ calls, Calls loader session.documents calls later.documents ∧
    later.fetched = session.fetched ++ calls.map (·.uri)

theorem proceeds_of_same (documents : later.documents = session.documents)
    (fetched : later.fetched = session.fetched) : Proceeds loader session later :=
  ⟨[], documents ▸ .nil _, by rw [fetched, List.map_nil, List.append_nil]⟩

theorem Proceeds.trans {last : Session} (first : Proceeds loader session later)
    (second : Proceeds loader later last) : Proceeds loader session last := by
  obtain ⟨calls, called, fetched⟩ := first
  obtain ⟨calls', called', fetched'⟩ := second
  refine ⟨calls ++ calls', called.append called', ?_⟩
  rw [fetched', fetched, List.map_append, List.append_assoc]

theorem proceeds_tame {act : Load α} (tame : IsTame act) (session : Session) :
    Proceeds loader session (act.run.run session).2 :=
  proceeds_of_same (tame session).2.documents (tame session).2.fetched

theorem isCourse_proceeds (loader : Loader) : IsCourse (Proceeds loader) :=
  ⟨fun _ _ => proceeds_of_same rfl rfl, Proceeds.trans⟩

theorem proceeds_bind {act : Load α} {next : α → Load β}
    (first : Proceeds loader session (act.run.run session).2)
    (rest : ∀ a later, act.run.run session = (.ok a, later) →
      Proceeds loader later ((next a).run.run later).2) :
    Proceeds loader session ((act >>= next).run.run session).2 :=
  (isCourse_proceeds loader).sequence first rest

/-- A call that fails ends what follows it. -/
theorem proceeds_failAt_bind {code : IssueCode} {location : Location} {problem : Problem}
    {next : α → Load β} :
    Proceeds loader session ((failAt code location problem >>= next).run.run session).2 :=
  proceeds_bind (proceeds_tame (isTame_failAt _ _ _) session) (fun _ _ run => (run_failAt run).elim)

/-! ## Locating -/

theorem run_document_of_place {uri key : String} (place : Uri.withoutFragment uri = .ok key) :
    (document? uri).run.run session = (.ok (session.documents.lookup key), session) := by
  change (checkUri (session.cache.document? uri)).run.run session = _
  unfold Cache.document?
  rw [place]
  rfl

/-- A document that is not known is stored under its URI without fragment. -/
theorem run_addDocument_absent {uri key : String} (place : Uri.withoutFragment uri = .ok key)
    (absent : session.documents.lookup key = none) (document : Document) (draft : Draft) :
    (addDocument uri document draft).run.run session = (.ok ⟨⟩, { session with
      cache := { session.cache with
        documents := Members.put session.documents key { document, draft } } }) := by
  have added : session.cache.addDocument uri document draft =
      .ok { session.cache with
        documents := Members.put session.documents key { document, draft } } := by
    unfold Cache.addDocument
    rw [place]
    change (match session.documents.lookup key with
      | some _ => _
      | none => _) = _
    rw [absent]
    rfl
  change ((check (session.cache.addDocument uri document draft) >>= _).run.run session) = _
  rw [added]
  rfl

/-- A document that is not stored is asked for once. -/
theorem proceeds_fetch {uri : String} {origin : Location} (plain : '#' ∉ uri.toList)
    (unknown : session.documents.lookup uri = none) :
    Proceeds loader session ((fetch loader uri origin).run.run session).2 := by
  unfold fetch
  dsimp only
  split
  · exact proceeds_failAt_bind
  · next enabled =>
    obtain ⟨allowed, real⟩ := not_or.1 (mt Bool.or_eq_true_iff.2 enabled)
    have may : MayFetch loader session.documents uri :=
      ⟨by simpa using allowed, unknown, plain, fun start => real (List.isPrefixOf_iff_prefix.2 start)⟩
    let asked : Session := { session with fetched := session.fetched ++ [uri] }
    let call : Call := ⟨uri, session.documents, loader.client.fetch uri⟩
    have called : ∀ {later : Session}, later.documents = call.after loader →
        later.fetched = session.fetched ++ [uri] → Proceeds loader session later := by
      intro later documents fetched
      have last : Calls loader (call.after loader) [] later.documents := documents ▸ .nil _
      exact ⟨[call], @Calls.cons loader call _ _ may rfl last, fetched⟩
    rw [run_bind_ok (show (modify _ : Load PUnit).run.run session = (.ok ⟨⟩, asked) from rfl)]
    split
    · next document served =>
      have added := @run_addDocument_absent asked _ _ (Uri.withoutFragment_of_plain plain) unknown
      rw [added]
      refine called ?_ rfl
      unfold Call.after Call.stored?
      dsimp only [call]
      rw [served]
    · next reason failed =>
      have tame : asked.Advances _ :=
        (@isTame_failAt PUnit .documentFetchFailed origin (.fetchFailed reason) asked).2
      refine called ?_ tame.fetched
      unfold Call.after Call.stored?
      dsimp only [call]
      rw [failed]
      exact tame.documents

theorem isTame_pointerOf (uri fragment : String) (origin : Location) :
    IsTame (pointerOf uri fragment origin) := by
  unfold pointerOf
  split
  · exact isTame_pure _
  · exact isTame_failAt _ _ _

theorem proceeds_findById_bind {uri : String} {next : Option (String × Pointer) → Load β}
    (rest : ∀ found, Proceeds loader session ((next found).run.run session).2) :
    Proceeds loader session ((findById uri >>= next).run.run session).2 := by
  refine proceeds_bind (proceeds_tame (IsStep.findById uri).isTame session) (fun found s run => ?_)
  obtain ⟨_, rfl⟩ := run_findById run
  exact rest found

/-- Where the target of a reference is located, its document is asked for if it is not stored. -/
theorem proceeds_locate (uri : String) (origin : Location) (session : Session) :
    Proceeds loader session ((locate loader uri origin).run.run session).2 := by
  have pointed : ∀ base fragment (session : Session), Proceeds loader session
      ((do return (base, ← pointerOf uri fragment origin) :
        Load (String × Pointer)).run.run session).2 := fun base fragment =>
    proceeds_tame (isTame_bind (isTame_pointerOf _ _ _) (fun _ => isTame_pure _))
  unfold locate
  refine proceeds_bind (proceeds_tame (isTame_checkUri _) session) (fun parts s₁ run => ?_)
  obtain ⟨split, rfl⟩ := run_checkUri run
  obtain ⟨base, fragment⟩ := parts
  have plain := Uri.mark_not_mem_split split
  refine proceeds_bind (proceeds_tame (isTame_bind isTame_get (fun _ => isTame_checkUri _)) s₁)
    (fun stored s₂ run => ?_)
  obtain ⟨found, rfl⟩ := run_document run
  obtain ⟨key, place, found⟩ := except_bind_ok found
  rw [Uri.withoutFragment_of_plain plain] at place
  cases place
  have found : s₂.documents.lookup base = stored := Except.ok.inj found
  dsimp only
  split
  · exact pointed base fragment s₂
  · refine proceeds_findById_bind (fun place => ?_)
    split
    · exact proceeds_tame (isTame_pure _) s₂
    · split
      · exact proceeds_failAt_bind
      · next unknown =>
        have absent : s₂.documents.lookup base = none := by
          rw [found]
          exact Option.not_isSome_iff_eq_none.1 unknown
        refine proceeds_bind (proceeds_fetch plain absent) (fun _ s₃ _ => ?_)
        refine proceeds_findById_bind (fun place => ?_)
        split
        · exact proceeds_tame (isTame_pure _) s₃
        · split
          · exact pointed base fragment s₃
          · exact proceeds_tame (isTame_failAt _ _ _) s₃

/-! ## Loading -/

theorem congruence_proceeds (loader : Loader) :
    Congruence Set.univ loader loader.options.strict loader.options.strict
      (Pursues (Proceeds loader)) where
  toCompatible := (isCourse_proceeds loader).compatible loader fun isStep => proceeds_tame isStep.isTame
  locate uri origin := .unvalued (proceeds_locate uri origin)

theorem proceeds_loadNode (loader : Loader) (depth : Nat) (value : Json) (location : Location)
    (draft : Draft) : Pursues (Proceeds loader) (loadNode loader depth value location draft)
      (loadNode loader depth value location draft) fun _ => True := by
  induction depth generalizing value location draft with
  | zero => exact (isCourse_proceeds loader).throw _
  | succ depth ih =>
    exact (congruence_proceeds loader).nodeWith
      (fun value location draft _ => ih value location draft)
      (fun making => .unvalued (proceeds_tame making.isTame))
      (isPlaced_of_isKeyed (isKeyed_univ _ _ _)) draft

/-! ## Requests -/

/-- A request to load a value. The client may say something else at every request. -/
structure Request where
  client : DocumentClient
  document : Document
  location : Location

namespace Request

/-- The documents that are stored when a request starts to load: a value that is the root of a
document is stored, unless the document is known. -/
def opened (loader : Loader) (request : Request) (documents : Documents) : Documents :=
  match Uri.withoutFragment request.location.documentUri with
  | .ok uri =>
    if request.location.pointer.isEmpty && (documents.lookup uri).isNone then
      Members.put documents uri ⟨request.document, draftOf loader request.document.value⟩
    else documents
  | .error _ => documents

/-- The session in which a request starts to load. -/
def admitted (loader : Loader) (request : Request) (session : Session) : Session :=
  { session with
    cache := { session.cache with documents := request.opened loader session.documents } }

/-- The session after a request, be it successful or not. -/
def run (loader : Loader) (request : Request) (session : Session) : Session :=
  ((load (loader.withClient request.client) request.document request.location).run.run session).2

theorem grows_opened (request : Request) (documents : Documents) :
    Grows documents (request.opened loader documents) := by
  unfold opened
  split
  · split
    · next new =>
      exact Session.grows_put (Option.isNone_iff_eq_none.1 (Bool.and_eq_true_iff.1 new).2)
    · exact fun _ _ found => found
  · exact fun _ _ found => found

end Request

theorem run_loadBound (loader : Loader) (value : Json) (location : Location) (draft : Draft)
    (session : Session) :
    (do
      let depth := depthBound loader (← get).cache value
      loadNode loader depth value location draft : Load Schema).run.run session =
    (loadNode loader (value.size + session.cache.documentSize + loader.client.size + 1 + 1) value
      location draft).run.run session := by
  rw [run_bind_ok (show (get : Load Session).run.run session = (.ok session, session) from rfl)]
  unfold depthBound
  rfl

/-- A request whose location has a bad URI is refused. -/
theorem run_load_error {fault : Uri.UriFault} {request : Request}
    (place : Uri.withoutFragment request.location.documentUri = .error fault) (session : Session) :
    (load (loader.withClient request.client) request.document request.location).run.run session =
      (.error (.fault (.badUri fault)), session) := by
  have failed : (document? request.location.documentUri).run.run session =
      (.error (.fault (.badUri fault)), session) := by
    change (checkUri (session.cache.document? _)).run.run session = _
    unfold Cache.document?
    rw [place]
    rfl
  exact run_bind_error failed

/-- Any other request is answered by loading its value, once the root is stored. -/
theorem run_load {uri : String} {request : Request}
    (place : Uri.withoutFragment request.location.documentUri = .ok uri) (session : Session) :
    ∃ depth draft,
      (load (loader.withClient request.client) request.document request.location).run.run session =
        (loadNode (loader.withClient request.client) (depth + 1) request.document.value
          request.location draft).run.run (request.admitted loader session) := by
  unfold Request.admitted Request.opened load
  rw [run_bind_ok (run_document_of_place place), place]
  cases stored : session.documents.lookup uri with
  | some stored =>
    dsimp only
    rw [pure_bind, run_loadBound, stored]
    simp only [Option.isNone_some, Bool.and_false, Bool.false_eq_true, if_false]
    exact ⟨_, _, rfl⟩
  | none =>
    dsimp only
    rw [stored, Option.isNone_none, Bool.and_true]
    by_cases start : request.location.pointer.isEmpty = true
    · rw [if_pos start, if_pos start, run_bind_ok (run_addDocument_absent place stored _ _),
        pure_bind, run_loadBound]
      exact ⟨_, _, rfl⟩
    · rw [if_neg start, if_neg start, pure_bind, run_loadBound]
      exact ⟨_, _, rfl⟩

/-- Loading calls the client, one call after the other, once the root is stored. -/
theorem calls_load (loader : Loader) (request : Request) (session : Session) :
    ∃ calls, Calls (loader.withClient request.client) (request.opened loader session.documents) calls
        (request.run loader session).documents ∧
      (request.run loader session).fetched = session.fetched ++ calls.map (·.uri) := by
  unfold Request.run
  cases place : Uri.withoutFragment request.location.documentUri with
  | error fault =>
    rw [run_load_error place]
    refine ⟨[], ?_, (List.append_nil _).symm⟩
    unfold Request.opened
    rw [place]
    exact .nil _
  | ok uri =>
    obtain ⟨depth, draft, run⟩ := run_load place session
    rw [run]
    exact (proceeds_loadNode (loader.withClient request.client) (depth + 1) _ _ draft).later
      (request.admitted loader session)

/-- The calls of the client while requests are answered one after the other. -/
inductive History (loader : Loader) : Session → List Request → List Call → Session → Prop
  | nil (session : Session) : History loader session [] [] session
  | cons {request : Request} {requests : List Request} {calls more : List Call}
    {session later : Session}
    (called : Calls (loader.withClient request.client) (request.opened loader session.documents) calls
      (request.run loader session).documents)
    (fetched : (request.run loader session).fetched = session.fetched ++ calls.map (·.uri))
    (rest : History loader (request.run loader session) requests more later) :
    History loader session (request :: requests) (calls ++ more) later

/-- The session after some requests, be they successful or not. -/
def answering (loader : Loader) (session : Session) (requests : List Request) : Session :=
  requests.foldl (fun session request => request.run loader session) session

theorem exists_history (loader : Loader) (session : Session) (requests : List Request) :
    ∃ calls, History loader session requests calls (answering loader session requests) := by
  induction requests generalizing session with
  | nil => exact ⟨[], .nil session⟩
  | cons request requests ih =>
    obtain ⟨calls, called, fetched⟩ := calls_load loader request session
    obtain ⟨more, rest⟩ := ih (request.run loader session)
    exact ⟨calls ++ more, .cons called fetched rest⟩

theorem History.fetched {requests : List Request} {calls : List Call}
    (history : History loader session requests calls later) :
    later.fetched = session.fetched ++ calls.map (·.uri) := by
  induction history with
  | nil => exact (List.append_nil _).symm
  | cons _ fetched _ ih => rw [ih, fetched, List.map_append, List.append_assoc]

theorem History.grows {requests : List Request} {calls : List Call}
    (history : History loader session requests calls later) :
    Grows session.documents later.documents := by
  induction history with
  | nil => exact fun _ _ found => found
  | cons called _ _ ih =>
    exact fun uri stored found => ih _ _ (called.grows _ _ (Request.grows_opened _ _ _ _ found))

/-! ## Discipline -/

/-- Calls were allowed at their moments, and what they brought is stored at every later one and in
the documents at the end. -/
structure AreDisciplined (loader : Loader) (calls : List Call) (documents : Documents) : Prop where
  may : ∀ call ∈ calls, MayFetch loader call.documents call.uri
  kept : calls.Pairwise fun call later =>
    ∀ stored, call.stored? loader = some stored → later.documents.lookup call.uri = some stored
  stored : ∀ call ∈ calls, ∀ stored, call.stored? loader = some stored →
    documents.lookup call.uri = some stored

theorem AreDisciplined.grow {calls : List Call} {documents' : Documents}
    (disciplined : AreDisciplined loader calls documents) (grows : Grows documents documents') :
    AreDisciplined loader calls documents' :=
  ⟨disciplined.may, disciplined.kept, fun call mem stored answered =>
    grows _ _ (disciplined.stored call mem stored answered)⟩

/-- One more call. -/
theorem AreDisciplined.call {calls : List Call} {call : Call}
    (disciplined : AreDisciplined loader calls call.documents)
    (may : MayFetch loader call.documents call.uri) :
    AreDisciplined loader (calls ++ [call]) (call.after loader) := by
  have grows : Grows call.documents (call.after loader) := Call.grows_after may.unknown
  have grown := disciplined.grow grows
  refine ⟨fun other mem => ?_, ?_, fun other mem stored answered => ?_⟩
  · rcases List.mem_append.1 mem with old | new
    · exact disciplined.may other old
    · exact List.mem_singleton.1 new ▸ may
  · refine List.pairwise_append.2 ⟨disciplined.kept, List.pairwise_singleton _ _, ?_⟩
    intro other mem last new stored answered
    rw [List.mem_singleton.1 new]
    exact disciplined.stored other mem stored answered
  · rcases List.mem_append.1 mem with old | new
    · exact grown.stored other old stored answered
    · rw [List.mem_singleton.1 new] at answered ⊢
      exact Call.lookup_after answered

theorem Calls.disciplined {client : DocumentClient} {calls earlier : List Call}
    {documents' : Documents} (called : Calls (loader.withClient client) documents calls documents')
    (disciplined : AreDisciplined loader earlier documents) :
    AreDisciplined loader (earlier ++ calls) documents' := by
  induction called generalizing earlier with
  | nil => rwa [List.append_nil]
  | @cons call calls _ may _ _ ih =>
    rw [List.append_cons]
    exact ih (disciplined.call ⟨may.allowed, may.unknown, may.plain, may.real⟩)

theorem History.disciplined {requests : List Request} {calls earlier : List Call}
    (history : History loader session requests calls later)
    (disciplined : AreDisciplined loader earlier session.documents) :
    AreDisciplined loader (earlier ++ calls) later.documents := by
  induction history generalizing earlier with
  | nil => rwa [List.append_nil]
  | cons called _ _ ih =>
    rw [← List.append_assoc]
    exact ih (called.disciplined (disciplined.grow (Request.grows_opened _ _)))

/-- Two calls of one URI are not both successful: the second one would not have been allowed. -/
theorem AreDisciplined.once {calls : List Call} (disciplined : AreDisciplined loader calls documents) :
    ((calls.filter fun call => (call.stored? loader).isSome).map (·.uri)).Nodup := by
  refine List.pairwise_map.2 (List.Pairwise.imp_of_mem ?_ (disciplined.kept.filter _))
  intro call later mem mem' kept same
  obtain ⟨stored, answered⟩ := Option.isSome_iff_exists.1 (List.mem_filter.1 mem).2
  have found := kept stored answered
  rw [same, (disciplined.may later (List.mem_filter.1 mem').1).unknown] at found
  cases found

/-! ## Whole sessions -/

theorem fetched_addDocument (uri : String) (document : Document) (draft : Draft)
    (session : Session) :
    ((addDocument uri document draft).run.run session).2.fetched = session.fetched := by
  change ((check (session.cache.addDocument uri document draft) >>= _).run.run session).2.fetched = _
  cases session.cache.addDocument uri document draft <;> rfl

/-- A new session, which has the preloaded documents. -/
def opening (loader : Loader) : Session :=
  ((newSession loader).run.run .empty).2

theorem fetched_opening (loader : Loader) : (opening loader).fetched = [] := by
  have preloaded : ∀ (entries : List (String × Document)) (session : Session),
      ((entries.forM fun entry => addDocument entry.1 entry.2 (draftOf loader entry.2.value) :
        Load PUnit).run.run session).2.fetched = session.fetched := by
    intro entries
    induction entries with
    | nil => exact fun _ => rfl
    | cons entry entries ih =>
      intro session
      have first := fetched_addDocument entry.1 entry.2 (draftOf loader entry.2.value) session
      change (((addDocument entry.1 entry.2 (draftOf loader entry.2.value)) >>= fun _ =>
        entries.forM _).run.run session).2.fetched = _
      cases run : (addDocument entry.1 entry.2 (draftOf loader entry.2.value)).run.run session with
      | mk result later =>
        rw [run] at first
        cases result with
        | ok _ =>
          rw [run_bind_ok run, ih later]
          exact first
        | error stop =>
          rw [run_bind_error run]
          exact first
  exact preloaded loader.preloaded _

/-- In a new session that answers any requests, successful or not, every call of the client was
allowed at its moment: fetching is on, and no stored document has the URI, which has no fragment and
was not generated. What a call brought is stored from then on, so no URI is fetched successfully
twice. -/
theorem session_fetches_once (loader : Loader) (requests : List Request) :
    let session := answering loader (opening loader) requests
    ∃ calls, History loader (opening loader) requests calls session ∧
      session.fetched = calls.map (·.uri) ∧
      AreDisciplined loader calls session.documents ∧
      ((calls.filter fun call => (call.stored? loader).isSome).map (·.uri)).Nodup ∧
      (loader.options.allowRemoteFetch = false → session.fetched = []) := by
  obtain ⟨calls, history⟩ := exists_history loader (opening loader) requests
  have fetched := history.fetched
  rw [fetched_opening, List.nil_append] at fetched
  have started : AreDisciplined loader [] (opening loader).documents := ⟨nofun, .nil, nofun⟩
  have disciplined := history.disciplined started
  rw [List.nil_append] at disciplined
  refine ⟨calls, history, fetched, disciplined, disciplined.once, fun off => ?_⟩
  cases calls with
  | nil => exact fetched
  | cons call calls =>
    have on := (disciplined.may call List.mem_cons_self).allowed
    rw [off] at on
    cases on

end Load

end JsonSchema
