import JsonSchema.Proofs.Tracked

/-!
# Looking up and locating

A URI is looked up in the cache first, and located only if it is not there. Both agree in every
session that steps lead to, as long as its documents are unambiguous: the handle under a URI stands
at the place that the URI is located at (`lookup_eq_locate`). So what a reference binds to does not
depend on what was loaded before it.
-/

namespace JsonSchema.Load

variable {loader : Loader} {session later : Session} {α β : Type} {uri : String}
  {origin : Location} {place : String × Pointer}

/-! ## Runs that end with a value -/

theorem run_check {x : Except Fault α} {a : α} (run : (check x).run.run session = (.ok a, later)) :
    x = .ok a ∧ later = session := by
  cases x with
  | ok b =>
    cases run
    exact ⟨rfl, rfl⟩
  | error fault => cases run

theorem run_checkUri {x : Except Uri.UriFault α} {a : α}
    (run : (checkUri x).run.run session = (.ok a, later)) : x = .ok a ∧ later = session := by
  obtain ⟨ok, same⟩ := run_check run
  exact ⟨mapError_ok ok, same⟩

theorem run_failAt {code : IssueCode} {location : Location} {problem : Problem} {a : α}
    (run : (failAt code location problem : Load α).run.run session = (.ok a, later)) : False := by
  obtain ⟨issue, s, _, run⟩ := run_bind_eq_ok run
  cases run

theorem run_pointerOf {fragment : String} {pointer : Pointer}
    (run : (pointerOf uri fragment origin).run.run session = (.ok pointer, later)) :
    Pointer.parseFragment fragment = .ok pointer ∧ later = session := by
  unfold pointerOf at run
  split at run
  · next parsed =>
    cases run
    exact ⟨parsed, rfl⟩
  · exact (run_failAt run).elim

theorem run_document {found : Option StoredDocument}
    (run : (document? uri).run.run session = (.ok found, later)) :
    session.cache.document? uri = .ok found ∧ later = session :=
  run_checkUri run

theorem run_addDocument {document : Document} {draft : Draft}
    (run : (addDocument uri document draft).run.run session = (.ok ⟨⟩, later)) :
    later.fetched = session.fetched := by
  obtain ⟨before, s₁, got, run⟩ := run_bind_eq_ok run
  cases got
  obtain ⟨cache, s₂, checked, run⟩ := run_bind_eq_ok run
  obtain ⟨_, rfl⟩ := run_check checked
  cases run
  rfl

/-- Fetching is written down. -/
theorem run_fetch (run : (fetch loader uri origin).run.run session = (.ok ⟨⟩, later)) :
    later.fetched = session.fetched ++ [uri] := by
  unfold fetch at run
  dsimp only at run
  split at run
  · obtain ⟨_, s₁, failed, _⟩ := run_bind_eq_ok run
    exact (run_failAt failed).elim
  · obtain ⟨_, s₁, modified, run⟩ := run_bind_eq_ok run
    cases modified
    split at run
    · exact run_addDocument run
    · exact (run_failAt run).elim

theorem run_findById {found : Option (String × Pointer)}
    (run : (findById uri).run.run session = (.ok found, later)) :
    session.cache.findById uri = .ok found ∧ later = session :=
  run_check run

/-! ## Without fetching -/

/-- A URI that is located leads to its place, unless a document was fetched on the way. -/
theorem locate_cases (distinct : (Members.keys session.documents).Nodup)
    (run : (locate loader uri origin).run.run session = (.ok place, later)) :
    Leads session.documents uri place ∨ ∃ fetched, later.fetched = session.fetched ++ [fetched] := by
  unfold locate at run
  obtain ⟨⟨base, fragment⟩, s₁, checked, run₁⟩ := run_bind_eq_ok run
  obtain ⟨split, rfl⟩ := run_checkUri checked
  dsimp only at run₁
  obtain ⟨stored, s₂, read, run₂⟩ := run_bind_eq_ok run₁
  obtain ⟨found, rfl⟩ := run_document read
  obtain ⟨key, plain, found⟩ := except_bind_ok found
  rw [Uri.withoutFragment_of_plain (Uri.mark_not_mem_split split)] at plain
  cases plain
  cases found
  split at run₂
  · next known =>
    obtain ⟨isSome, way⟩ := Bool.and_eq_true_iff.1 known
    obtain ⟨document, known⟩ := Option.isSome_iff_exists.1 isSome
    obtain ⟨pointer, s₃, read, run₃⟩ := run_bind_eq_ok run₂
    obtain ⟨parsed, rfl⟩ := run_pointerOf read
    cases run₃
    exact .inl (.document split known way parsed)
  · obtain ⟨answer, s₃, searched, run₃⟩ := run_bind_eq_ok run₂
    obtain ⟨listed, rfl⟩ := run_findById searched
    cases answer with
    | some place =>
      cases run₃
      exact .inl (leads_of_findById distinct listed)
    | none =>
      dsimp only at run₃
      split at run₃
      · obtain ⟨_, _, failed, _⟩ := run_bind_eq_ok run₃
        exact (run_failAt failed).elim
      · obtain ⟨_, s₄, fetched, run₄⟩ := run_bind_eq_ok run₃
        refine .inr ⟨base, ?_⟩
        rw [← run_fetch fetched]
        obtain ⟨answer, s₅, searched, run₅⟩ := run_bind_eq_ok run₄
        obtain ⟨_, rfl⟩ := run_findById searched
        cases answer with
        | some place =>
          cases run₅
          rfl
        | none =>
          dsimp only at run₅
          split at run₅
          · obtain ⟨pointer, s₆, parsed, run₆⟩ := run_bind_eq_ok run₅
            obtain ⟨_, rfl⟩ := run_pointerOf parsed
            cases run₆
            rfl
          · exact (run_failAt run₅).elim

/-- The handle under a URI stands where the URI is located. -/
theorem lookup_eq_locate {source : String} {id : HandleId} (reachable : session.Reachable)
    (unambiguous : Unambiguous session.documents) (normal : Uri.normalize source = .ok uri)
    (cached : session.cache.lookup uri = .ok (some id))
    (located : (locate loader uri origin).run.run session = (.ok place, later))
    (unfetched : later.fetched = session.fetched) :
    ∃ handle, session.graph.handle? id = some handle ∧
      (handle.location.documentUri, handle.location.pointer) = place := by
  have traced := reachable.isTraced
  have leads : Leads session.documents uri place := by
    rcases locate_cases traced.distinct located with leads | ⟨fetched, longer⟩
    · exact leads
    · rw [unfetched] at longer
      exact absurd longer (by simp)
  obtain ⟨key, keyed, found⟩ := except_bind_ok cached
  obtain ⟨place', ⟨handle, stands, here⟩, names⟩ :=
    traced.entries _ (Members.mem_of_lookup (Except.ok.inj found))
  refine ⟨handle, stands, here.trans ?_⟩
  exact unambiguous.names_unique (names unambiguous) (unambiguous.names_leads normal leads keyed)

/-- After the list was loaded, its URI is in the cache, and it is located without fetching. -/
theorem linked_lookup : ∃ schema session,
    (loadAll Linked.loader [(Linked.document, Linked.root)]).run.run .empty =
      (.ok [schema], session) ∧
    ∃ id handle, session.cache.lookup Linked.root.documentUri = .ok (some id) ∧
      session.graph.handle? id = some handle ∧
      (handle.location.documentUri, handle.location.pointer) = (Linked.root.documentUri, []) := by
  obtain ⟨schema, session, run, _, _, _, keys⟩ := Linked.exists_loaded
  obtain ⟨w, same, _⟩ := exists_track Linked.isReady Linked.agree run
  have loading : Linked.loading = (.ok [schema], session) := by
    unfold Linked.loading
    exact run
  have cached :
      (Linked.loading.2.cache.lookup Linked.root.documentUri).toOption.join.isSome = true := by
    decide +kernel
  have located : ((locate Linked.loader Linked.root.documentUri Linked.root).run.run
        Linked.loading.2).1.toOption = some (Linked.root.documentUri, []) ∧
      ((locate Linked.loader Linked.root.documentUri Linked.root).run.run
        Linked.loading.2).2.fetched = Linked.loading.2.fetched := by
    decide +kernel
  rw [loading] at cached located
  dsimp only at cached located
  obtain ⟨place, unfetched⟩ := located
  obtain ⟨id, some_id⟩ := Option.isSome_iff_exists.1 cached
  have found := toOption_ok (Option.join_eq_some_iff.1 some_id)
  subst same
  have unambiguous := (Linked.areUnnamed w keys).unambiguous w.sound
  have normal : Uri.normalize Linked.root.documentUri = .ok Linked.root.documentUri := by
    decide +kernel
  obtain ⟨handle, held, here⟩ := lookup_eq_locate w.reachable unambiguous normal found
    (Prod.ext (toOption_ok place) rfl) unfetched
  exact ⟨schema, _, run, id, handle, found, held, here⟩

end JsonSchema.Load
