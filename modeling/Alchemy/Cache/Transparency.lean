import Alchemy.Cache.ContentSteps

/-! The cache is transparent. Whatever the threads, the coins and the evictions do, a query
value reads the bytes that a table without a cache would hold.
-/

namespace Alchemy.Cache

open Oid ByteImage CacheState Interleaving

variable {τ : Type}

/-- What an event makes the value last written to a field. -/
def CacheEvent.written (rid : Rid) (field : Field) (last : Option (List Byte))
    : CacheEvent → Option (List Byte)
  | .inserted other val => if other = rid then some (read val field.span) else last
  | .wrote other target bytes => if other = rid ∧ target = field then some bytes else last
  | _ => last

/-- The value most recently written to a field, by `insert` or through a query value. -/
def lastWritten (trace : List ((τ × CacheMove τ) × CacheEvent)) (rid : Rid) (field : Field)
    : Option (List Byte) :=
  trace.foldl (fun last taken => taken.2.written rid field last) none

theorem recordAfter_append (trace : List ((τ × CacheMove τ) × CacheEvent))
    (taken : (τ × CacheMove τ) × CacheEvent) (rid : Rid)
    : recordAfter (trace ++ [taken]) rid = taken.2.apply rid (recordAfter trace rid) := by
  simp [recordAfter]

theorem lastWritten_append (trace : List ((τ × CacheMove τ) × CacheEvent))
    (taken : (τ × CacheMove τ) × CacheEvent) (rid : Rid) (field : Field)
    : lastWritten (trace ++ [taken]) rid field
      = taken.2.written rid field (lastWritten trace rid field) := by
  simp [lastWritten]

variable [DecidableEq τ] {config : CacheConfig} {state next : CacheState τ} {t : τ}
  {event : CacheEvent} {trace : List ((τ × CacheMove τ) × CacheEvent)}
  {storage : Rid → Image Byte} {hand : τ → Nat}

/-- Along every run the records are those of the plain table. -/
theorem contents_of_run (laws : config.schema.LensLaws config.fields)
    (run : Run (cacheStep config) (CacheState.init storage hand) trace state)
    : Contents config state (recordAfter trace) := by
  induction run with
  | start => exact fun rid member => (List.not_mem_nil member).elim
  | extend earlier taken ih =>
      have kept := ih.step laws (consistent_of_run earlier) (step_effect taken)
      intro rid member
      rw [recordAfter_append]
      exact kept rid member

section LastWritten

variable {rid : Rid} {field : Field}

/-- A step writes the same bytes to the record and to the field, if no other declared field
shares a byte with it.
-/
theorem CacheState.Effect.written_eq {last : Option (List Byte)} {image : Image Byte}
    (effect : Effect config state t next event)
    (apart : ∀ other ∈ config.fields, other ≠ field → other.span.Disjoint field.span)
    (known : rid ∈ state.published → last = some (read image field.span))
    (member : rid ∈ next.published)
    : event.written rid field last = some (read (event.apply rid image) field.span) := by
  cases effect with
  | @publish target val here =>
      by_cases same : target = rid
      · simp only [CacheEvent.written, CacheEvent.apply, if_pos same]
      · simp only [CacheEvent.written, CacheEvent.apply, if_neg same]
        exact known ((List.mem_cons.mp member).resolve_left (Ne.symm same))
  | @wrote view target bytes location here live mine held declared sizes =>
      rw [store_published] at member
      by_cases same : view.rid = rid
      · by_cases whole : target = field
        · subst whole
          simp only [CacheEvent.written, CacheEvent.apply, same, and_self, if_pos]
          rw [read_write_self sizes]
        · simp only [CacheEvent.written, CacheEvent.apply, same, whole, and_false, if_neg,
            not_false_eq_true, if_pos]
          rw [read_write_disjoint sizes (apart target declared whole)]
          exact known member
      · simp only [CacheEvent.written, CacheEvent.apply, same, false_and, if_neg,
          not_false_eq_true]
        exact known member
  | @lockDone _ _ after => cases after <;> exact known member
  | _ => exact known member

/-- For a field apart from the other declared ones, the record holds what was last written. -/
theorem lastWritten_eq_record
    (apart : ∀ other ∈ config.fields, other ≠ field → other.span.Disjoint field.span)
    (run : Run (cacheStep config) (CacheState.init storage hand) trace state)
    (member : rid ∈ state.published)
    : lastWritten trace rid field = some (read (recordAfter trace rid) field.span) := by
  induction run with
  | start => exact (List.not_mem_nil member).elim
  | extend earlier taken ih =>
      rw [lastWritten_append, recordAfter_append]
      exact (step_effect taken).written_eq apart ih member

end LastWritten

omit [DecidableEq τ] in
/-- A live query value reads the bytes of its record, and never fails for a field of its
query. Witness: the field is in the entry, in the tuple beside the entry, or in the tuple of
an uncached record that nobody evicts because the owner of the value holds a guard on it.
-/
theorem Contents.fetch {record : Rid → Image Byte} {view : View τ} {field : Field}
    (contents : Contents config state record) (laws : config.schema.LensLaws config.fields)
    (consistent : Consistent config state) (here : state.pc view.owner = .idle)
    (live : view ∈ state.views) (declared : field ∈ config.fields) (asked : field ∈ view.query)
    : (view.value.locate config.schema field).map (state.fetch field.size)
      = some (read (record view.rid) field.span) := by
  have sound := consistent.views view live
  have content := contents view.rid sound.published
  unfold QueryValue.locate
  cases hit : view.value.field with
  | none =>
      obtain ⟨place, there⟩ := sound.miss hit
      have nobody : ∀ thread val, state.victim thread ≠ some (view.rid, val) := by
        apply consistent.not_victim sound.held
        intro val evicting
        rw [CacheState.victim, here] at evicting
        cases evicting
      cases isCached : config.schema.toCachedField field <;>
      · rw [there]
        exact congrArg some (content.uncached place nobody field declared)
  | some index =>
      have kept := content.cached index (sound.hit index hit) field declared
      cases isCached : config.schema.toCachedField field with
      | some place =>
          have stored := (laws field declared (state.storage view.rid)
            (state.entries index).val).stored place isCached
          refine congrArg some (Eq.trans ?_ (stored.symm.trans kept))
          rw [CacheState.fetch, ← laws.place_size declared isCached]
          rfl
      | none =>
          cases there : view.value.tuple with
          | none =>
              have matched := List.all_eq_true.mp (sound.matched there) field asked
              rw [isCached] at matched
              cases matched
          | some target =>
              obtain rfl := sound.tuple target there
              have untouched := (laws field declared (state.storage view.rid)
                (state.entries index).val).untouched isCached
              exact congrArg some (untouched.symm.trans kept)

theorem step_getValue {view : View τ} {field : Field}
    (taken : state.step config t (.getValue view field) = some (next, event))
    : state.pc t = .idle ∧ view ∈ state.views ∧ view.owner = t ∧ field ∈ config.fields
      ∧ event
        = .got view.rid field
            ((view.value.locate config.schema field).map (state.fetch field.size)) := by
  obtain ⟨here, started⟩ := step_start (by simp) taken
  simp only [CacheState.start, guarded_eq_some] at started
  obtain ⟨⟨live, mine, declared⟩, _, label⟩ := started
  exact ⟨here, live, mine, declared, label.symm⟩

/-- Cache transparency, for every schema that obeys the lens laws, every capacity and probe
length, and every run of any threads from an empty cache. Whenever a thread calls `get_value`
for a field of its query, it still holds a guard on the record, and it gets the bytes of the
plain table that the inserts and the field writes of the run describe. For a field that shares
no byte with another declared field this is the value most recently written to the field.
-/
theorem cache_transparent (laws : config.schema.LensLaws config.fields)
    (run : Run (cacheStep config) (CacheState.init storage hand) trace state)
    {view : View τ} {field : Field} (asked : field ∈ view.query)
    (taken : state.step config t (.getValue view field) = some (next, event))
    : (∃ guard ∈ (state.oids view.rid).guards, guard.owner = t)
      ∧ event = .got view.rid field (some (read (recordAfter trace view.rid) field.span))
      ∧ ((∀ other ∈ config.fields, other ≠ field → other.span.Disjoint field.span)
        → lastWritten trace view.rid field
          = some (read (recordAfter trace view.rid) field.span)) := by
  have consistent := consistent_of_run run
  obtain ⟨here, live, rfl, declared, rfl⟩ := step_getValue taken
  have sound := consistent.views view live
  refine ⟨sound.held, ?_, ?_⟩
  · rw [(contents_of_run laws run).fetch laws consistent here live declared asked]
  · intro apart
    exact lastWritten_eq_record apart run sound.published

/-- One entry and one probe, over tuples of two bytes of which the first is cached. -/
def halfCached : CacheConfig :=
  { singleEntry with
    schema :=
      { toCached := fun tuple => tuple
        writeBack := fun cached tuple => copy tuple ⟨0, 1⟩ cached 0
        toCachedField := fun field => if field = ⟨0, 1⟩ then some ⟨0, 1⟩ else none }
    fields := [⟨0, 1⟩, ⟨1, 2⟩] }

theorem halfCached_laws : halfCached.schema.LensLaws halfCached.fields := by
  intro field declared tuple cached
  have member : field = ⟨0, 1⟩ ∨ field = ⟨1, 2⟩ := by simpa [halfCached] using declared
  rcases member with rfl | rfl
  · constructor
    · intro place same
      obtain rfl := Option.some.inj same
      rfl
    · intro place same
      obtain rfl := Option.some.inj same
      have copied : read (copy tuple ⟨0, 1⟩ cached (Span.mk 0 1).start) ⟨0, 1⟩
          = read cached ⟨0, 1⟩ :=
        read_copy_self rfl
      exact copied
    · intro absent
      cases absent
  · constructor
    · intro place same
      cases same
    · intro place same
      cases same
    · intro _
      exact read_copy_disjoint (.inl (by decide))

/-- A thread inserts record 0, writes 7 to its cached field and 9 to the other, and drops its
guard. Another thread inserts record 1 into the only entry, which evicts record 0. The first
thread locks record 0 again, reads it from the table, and gets the 7.
-/
theorem cache_transparent_evicted
    : ∃ (trace : List ((Bool × CacheMove Bool) × CacheEvent)) (state next : CacheState Bool),
        Run (cacheStep halfCached) (CacheState.init (fun _ _ => 0) (fun _ => 0)) trace state
        ∧ (state.entries 0).rid = 1#32
        ∧ state.step halfCached true
            (.getValue ⟨true, 0#32, [⟨0, 1⟩], ⟨none, some 0#32⟩⟩ ⟨0, 1⟩)
          = some (next, .got 0#32 ⟨0, 1⟩ (some [7])) := by
  obtain ⟨trace, state, run, passed⟩ := exec_reaches
    (fun result : CacheState Bool × List ((Bool × CacheMove Bool) × CacheEvent) =>
      decide ((result.1.entries 0).rid = 1#32)
      && (result.1.step halfCached true
        (.getValue ⟨true, 0#32, [⟨0, 1⟩], ⟨none, some 0#32⟩⟩ ⟨0, 1⟩)).isSome
      && decide (lastWritten result.2 0#32 ⟨0, 1⟩ = some [7]))
    (by decide +kernel
      : (exec (cacheStep halfCached) (CacheState.init (fun _ _ => 0) (fun _ => 0))
          ([(true, .insert 0#32 (fun _ => 0))]
            ++ List.replicate 15 (true, .advance false)
            ++ [(true, .read 0#32 [⟨0, 1⟩, ⟨1, 2⟩])]
            ++ List.replicate 4 (true, .advance false)
            ++ [(true, .getValueMut ⟨true, 0#32, [⟨0, 1⟩, ⟨1, 2⟩], ⟨some 0, some 0#32⟩⟩ ⟨0, 1⟩ [7]),
              (true, .getValueMut ⟨true, 0#32, [⟨0, 1⟩, ⟨1, 2⟩], ⟨some 0, some 0#32⟩⟩ ⟨1, 2⟩ [9]),
              (true, .drop 0#32 .write), (false, .insert 1#32 (fun _ => 0))]
            ++ List.replicate 25 (false, .advance false)
            ++ [(true, .lock 0#32 .tryRead)]
            ++ List.replicate 3 (true, .advance false)
            ++ [(true, .read 0#32 [⟨0, 1⟩])]
            ++ List.replicate 2 (true, .advance false))).any _ = true)
  simp only [Bool.and_eq_true, decide_eq_true_eq, Option.isSome_iff_exists] at passed
  obtain ⟨⟨carries, ⟨next, event⟩, taken⟩, last⟩ := passed
  obtain ⟨_, label, written⟩ := cache_transparent halfCached_laws run (by simp) taken
  have apart : ∀ other ∈ halfCached.fields, other ≠ ⟨0, 1⟩
      → other.span.Disjoint (Field.span ⟨0, 1⟩) := by
    intro other declared different
    have member : other = ⟨0, 1⟩ ∨ other = ⟨1, 2⟩ := by simpa [halfCached] using declared
    obtain rfl := member.resolve_left different
    exact .inr (by decide)
  rw [← Option.some.inj (last.symm.trans (written apart))] at label
  exact ⟨trace, state, next, run, carries, label ▸ taken⟩

end Alchemy.Cache
