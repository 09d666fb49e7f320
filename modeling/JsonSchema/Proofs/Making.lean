import JsonSchema.Proofs.Building
import JsonSchema.Proofs.Tracking

/-!
# What loading makes

The rules for what is loaded of an object, over a function that loads values (`LoadsTracked`). From
a track in which a value is to be loaded (`IsDue`), it ends in a track above, and if no error was
recorded there, what it gives says what the value says. A reference refers to the place that its URI
names (`runs_loadReference`); keywords are read in tracks as in any setting (`runs_loadKeywords`).
-/

namespace JsonSchema.Load

variable {contents : String → Json} {w : Track contents} {loader : Loader} {load : NodeLoader}

/-- A schema that loading gives for a value. The handle of an object is in the cache then. -/
structure Gives (w : Track contents) (location : Location) (value : Json) (draft : Draft)
    (schema : Schema) : Prop where
  made : w.stock.Made schema
  loaded : w.stock.IsClean → Loaded w.stock location value draft schema
  entered : ∀ members, value = .object members → w.session.Enters location

/-- The rule of a function that loads values as schemas. -/
def LoadsTracked (contents : String → Json) (load : NodeLoader) : Prop :=
  ∀ (w : Track contents) (value : Json) (location : Location) (draft : Draft),
    IsDue w location value draft →
    Runs (load value location draft) w (fun schema w' => Gives w' location value draft schema)

section Objects

variable (loads : LoadsTracked contents load)

include loads

/-! ## References -/

/-- A reference resolves to the handle of the place that its URI names. -/
theorem runs_resolve (delivers : Delivers contents loader) {location : Location}
    {members : List (String × Json)} {draft : Draft} {text uri : String}
    (due : IsDue w location (.object members) draft)
    (ref : members.lookup Builtin.ref.key = some (.string text))
    (resolved : Uri.resolve location.scope text = .ok uri) :
    Runs (resolve loader load uri location) w (fun id w' => Targets w'.stock uri id) := by
  obtain ⟨source, normal⟩ := Uri.resolve_normalize resolved
  unfold resolve
  refine after_bind (runs_lookup uri) ?_
  rintro found w₁ _ ⟨rfl, looked⟩
  cases found with
  | some id =>
    refine after_pure ?_
    obtain ⟨key, keyed, looked⟩ := except_bind_ok looked
    obtain ⟨place, stands, names⟩ :=
      w₁.reachable.isTraced.entries _ (Members.mem_of_lookup (Except.ok.inj looked))
    exact ⟨key, keyed, fun unambiguous => ⟨place, names unambiguous, stands⟩⟩
  | none =>
    refine after_bind (runs_locate delivers uri (.value (due.comes.isAt w₁.sound))) ?_
    rintro ⟨documentUri, pointer⟩ w₂ up₂ ⟨leads, _⟩
    obtain ⟨stored, known⟩ : ∃ stored, w₂.documents.lookup documentUri = some stored := by
      cases leads with
      | document _ known _ _ => exact ⟨_, known⟩
      | listed _ _ known _ _ => exact ⟨_, known⟩
    have plain := w₂.sound.places _ _ known
    refine after_bind (runs_document documentUri) ?_
    rintro answer w₃ _ ⟨rfl, key, place, same⟩
    rw [plain] at place
    cases place
    rw [known] at same
    subst same
    dsimp only
    split
    · exact runs_failAt _ _ (.value ((due.later up₂).comes.isAt w₃.sound))
    · next value target found =>
      have target_due : IsDue w₃ target value stored.draft :=
        ⟨.referred (due.later up₂).comes ref resolved leads known found,
          fun clean => .referred ((due.later up₂).arrives clean) ref resolved leads known found⟩
      have entered : ∀ {w₄ : Track contents} {id : HandleId}, w₃ ≤ w₄ →
          (w₄.session.cache.lookupLocation target = .ok (some id) ∨
            HasLocation w₄.stock id target) →
          Runs (do enterUri uri id; return id) w₄ (fun id w' => Targets w'.stock uri id) := by
        intro w₄ id up holds
        have grown := (Track.grown up).session.documents
        refine after_bind (runs_enterUri normal (leads.mono grown) (grown _ _ known) found
          (target_due.later up).comes holds) (fun _ w₅ _ targets => ?_)
        exact after_pure targets
      refine after_bind (runs_lookupLocation target) ?_
      rintro answer w₄ _ ⟨rfl, looked⟩
      cases answer with
      | some id => exact entered le_rfl (.inl looked)
      | none =>
        refine after_bind (loads w₄ value target stored.draft target_due) ?_
        rintro schema w₅ up₅ given
        refine after_bind (runs_lookupLocation target) ?_
        rintro answer w₆ _ ⟨rfl, looked⟩
        cases answer with
        | some id => exact entered up₅ (.inl looked)
        | none =>
          refine after_bind (runs_addBound (target_due.later up₅) (fun members object => ?_)
            given.made given.loaded) ?_
          · obtain ⟨id, found⟩ := given.entered members object
            rw [found] at looked
            cases looked
          · exact fun id w₇ up₇ has => entered (le_trans up₅ up₇) (.inr has)

theorem runs_loadReference (delivers : Delivers contents loader) {location : Location}
    {members : List (String × Json)} {draft : Draft} {ref : Json}
    (due : IsDue w location (.object members) draft)
    (found : members.lookup Builtin.ref.key = some ref) :
    Runs (loadReference loader load members ref location (.empty (some location) draft)) w
      (fun builder w' => w'.stock.IsClean → Refers w'.stock location ref builder.keywords) := by
  have resolved : ∀ {text : String} {w₁ : Track contents}, ref = .string text → w ≤ w₁ →
      Runs (putReference loader load text location (.empty (some location) draft)) w₁
        (fun builder w' => w'.stock.IsClean → Refers w'.stock location ref builder.keywords) := by
    intro text w₁ same up₁
    subst same
    unfold putReference
    cases resolved : Uri.resolve location.scope text with
    | error fault =>
      have here := ((due.later up₁).comes.isAt w₁.sound).member found
      refine after_bind (runs_recordError _ _ here) (fun _ w₂ _ unclean => after_pure ?_)
      exact fun clean => absurd clean unclean
    | ok uri =>
      refine after_bind (runs_resolve loads delivers (due.later up₁) found resolved)
        (fun id w₂ up₂ targets => ?_)
      have put : SchemaBuilder.put (.empty (some location) draft) Builtin.ref
          (.reference text uri id) = .ok {
            location := some location, draft
            keywords := [(Builtin.ref, .reference text uri id)] } := by
        unfold SchemaBuilder.put
        rw [SchemaBuilder.check_reference]
        rfl
      rw [put]
      exact after_pure (fun _ => ⟨text, uri, id, rfl, resolved, rfl, targets⟩)
  unfold loadReference
  cases ref with
  | string text =>
    dsimp only
    split
    · exact after_bind (runs_recordWarning _ _ (.value (due.comes.isAt w.sound)))
        (fun _ w₁ up₁ _ => resolved rfl up₁)
    · exact resolved rfl le_rfl
  | _ =>
    have here := (due.comes.isAt w.sound).member found
    refine after_bind (runs_recordError _ _ here) (fun _ w₁ _ unclean => after_pure ?_)
    exact fun clean => absurd clean unclean

/-! ## Keywords -/

theorem LoadsTracked.loadsIn : LoadsIn (Track contents) load :=
  fun w value location draft due =>
    after_mono (loads w value location draft due) (fun _ _ _ given => given.loaded)

/-- The keywords of an object say what its members say. -/
theorem runs_loadKeywords (registry : loader.registry = .default) {location : Location}
    {draft : Draft} {members : List (String × Json)} (distinct : (Members.keys members).Nodup)
    (here : IsAt w.documents (.object members) location.place)
    (due : ∀ part ∈ Json.parts draft members, IsDue w (location.child part.1) part.2 draft) :
    Runs (loadKeywords loader load members location draft (.empty (some location) draft)) w
      (fun builder w' => w'.stock.IsClean →
        Reads (LoadedBelow w'.stock location draft) draft members builder.keywords) :=
  after_mono (works_loadKeywords loads.loadsIn registry distinct (.value here)
    (fun _ mem => here.member (Members.lookup_of_mem distinct mem)) here.items due)
    (fun _ _ _ read clean => (read clean).1)

end Objects

end JsonSchema.Load
