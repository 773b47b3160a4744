import Alchemy.Cache.Bijection
import Alchemy.Cache.Lens

/-! Where the current bytes of a record are.
A record is what its tuple becomes when the cached part is written back: from its entry, or
from the node that an evicting thread carries. The invariant compares this with the plain
table that the history describes.
-/

namespace Alchemy.Cache

open Oid ByteImage CacheState

variable {τ : Type}

/-- What an event does to a record of a table without a cache. -/
def CacheEvent.apply (rid : Rid) (image : Image Byte) : CacheEvent → Image Byte
  | .inserted other val => if other = rid then val else image
  | .wrote other field bytes =>
      if other = rid then write image field.span.start bytes else image
  | _ => image

/-- The record after a history: the tuple inserted, overwritten by all field writes since. -/
def recordAfter (trace : List ((τ × CacheMove τ) × CacheEvent)) (rid : Rid) : Image Byte :=
  trace.foldl (fun image taken => taken.2.apply rid image) (fun _ => 0)

/-- The record that a thread is evicting and the node value that has to be written back. -/
def Pc.victim (entries : Word → ClockNode) : Pc → Option (Rid × Image Byte)
  | .probeReplace _ index curRid => some (curRid, (entries index).val)
  | .oid _ _ (.placed _ _ (some old)) _ | .probeSetRef _ _ (some old)
  | .evictWriteBack _ _ old => some (old.oid, old.node.val)
  | _ => none

section Definitions

variable (config : CacheConfig) (state : CacheState τ)

def CacheState.victim (t : τ) : Option (Rid × Image Byte) :=
  (state.pc t).victim state.entries

/-- The record has the bytes `image` in its declared fields. -/
structure Content (rid : Rid) (image : Image Byte) : Prop where
  cached : ∀ index, state.place rid = .cached index
    → SameFields config.fields
        (config.schema.writeBack (state.entries index).val (state.storage rid)) image
  uncached : state.place rid = .rid rid → (∀ t val, state.victim t ≠ some (rid, val))
    → SameFields config.fields (state.storage rid) image
  evicted : ∀ t val, state.victim t = some (rid, val)
    → SameFields config.fields (config.schema.writeBack val (state.storage rid)) image

end Definitions

section Frame

variable {config : CacheConfig} {state next : CacheState τ} {t : τ} {rid : Rid}
  {image : Image Byte}

/-- A thread owns the record it evicts, and the word of the record says its rid. -/
theorem Consistent.victim_owned (consistent : Consistent config state) {val : Image Byte}
    (evicting : state.victim t = some (rid, val))
    : state.Owns t rid ∧ state.place rid = .rid rid := by
  have known := consistent.sound t
  unfold CacheState.victim Pc.victim at evicting
  split at evicting
  · next here =>
      obtain ⟨rfl, rfl⟩ := Prod.mk.inj (Option.some.inj evicting)
      rw [here] at known
      obtain ⟨_, _, victim, place⟩ := known
      exact ⟨victim.owns, place⟩
  · next here =>
      obtain ⟨rfl, rfl⟩ := Prod.mk.inj (Option.some.inj evicting)
      rw [here] at known
      obtain ⟨_, _, _, _, _, _, old⟩ := known
      exact ⟨(old _ rfl).owns, (old _ rfl).place⟩
  · next here =>
      obtain ⟨rfl, rfl⟩ := Prod.mk.inj (Option.some.inj evicting)
      rw [here] at known
      exact ⟨(known.2 _ rfl).owns, (known.2 _ rfl).place⟩
  · next here =>
      obtain ⟨rfl, rfl⟩ := Prod.mk.inj (Option.some.inj evicting)
      rw [here] at known
      exact ⟨known.2.owns, known.2.place⟩
  · cases evicting

/-- A record somebody else owns is evicted by nobody else. -/
theorem Consistent.not_victim (consistent : Consistent config state)
    (held : state.Holds t rid) (mine : ∀ val, state.victim t ≠ some (rid, val))
    : ∀ thread val, state.victim thread ≠ some (rid, val) := by
  intro thread val evicting
  obtain rfl :=
    consistent.exclusive (consistent.victim_owned evicting).1.writes held
  exact mine val evicting

/-- The content of a cached record is in its entry: nobody is evicting it. -/
theorem Content.of_cached {index : Word} (consistent : Consistent config state)
    (place : state.place rid = .cached index)
    (same
      : SameFields config.fields
          (config.schema.writeBack (state.entries index).val (state.storage rid)) image)
    : Content config state rid image where
  cached := by
    intro other said
    obtain rfl := Place.cached.inj (place.symm.trans said)
    exact same
  uncached := fun said => absurd (place.symm.trans said) (by simp)
  evicted := by
    intro thread val evicting
    exact absurd (place.symm.trans (consistent.victim_owned evicting).2) (by simp)

/-- The content of an uncached record is in its tuple, if a thread that holds it does not
evict it.
-/
theorem Content.of_uncached (consistent : Consistent config state)
    (place : state.place rid = .rid rid) (held : state.Holds t rid)
    (mine : ∀ val, state.victim t ≠ some (rid, val))
    (same : SameFields config.fields (state.storage rid) image)
    : Content config state rid image where
  cached := fun index said => absurd (place.symm.trans said) (by simp)
  uncached := fun _ _ => same
  evicted := fun thread val evicting =>
    absurd evicting (consistent.not_victim held mine thread val)

/-- The content of a record that is being evicted is in its tuple and the node taken out. -/
theorem Content.of_victim {val : Image Byte} (consistent : Consistent config state)
    (evicting : state.victim t = some (rid, val))
    (same : SameFields config.fields (config.schema.writeBack val (state.storage rid)) image)
    : Content config state rid image where
  cached := by
    intro index said
    exact absurd ((consistent.victim_owned evicting).2.symm.trans said) (by simp)
  uncached := fun _ nobody => absurd evicting (nobody t val)
  evicted := by
    intro thread other theirs
    obtain rfl := consistent.exclusive (consistent.victim_owned evicting).1.writes
      (consistent.victim_owned theirs).1.holds
    obtain ⟨_, rfl⟩ := Prod.mk.inj (Option.some.inj (evicting.symm.trans theirs))
    exact same

/-- The content of a record depends on its word, its tuple, the entry its word points to and
the evictions of it.
-/
theorem Content.frame (content : Content config state rid image)
    (place : next.place rid = state.place rid) (storage : next.storage rid = state.storage rid)
    (entries
      : ∀ index, state.place rid = .cached index
          → (next.entries index).val = (state.entries index).val)
    (victims
      : ∀ thread val, next.victim thread = some (rid, val)
          ↔ state.victim thread = some (rid, val))
    : Content config next rid image where
  cached := by
    intro index said
    rw [place] at said
    rw [storage, entries index said]
    exact content.cached index said
  uncached := by
    intro said nobody
    rw [place] at said
    rw [storage]
    exact content.uncached said
      (fun thread val evicting => nobody thread val ((victims thread val).mpr evicting))
  evicted := by
    intro thread val evicting
    rw [storage]
    exact content.evicted thread val ((victims thread val).mp evicting)

variable [DecidableEq τ]

/-- A step changes nothing about the evictions of other threads. -/
theorem Consistent.victim_other (consistent : Consistent config state)
    (guarantee : Guarantee state t next) {thread : τ} (different : thread ≠ t)
    : next.victim thread = state.victim thread := by
  have known := consistent.sound thread
  unfold CacheState.victim
  rw [guarantee.pc thread different]
  cases here : state.pc thread with
  | probeReplace job index curRid =>
      rw [here] at known
      obtain ⟨_, _, victim, _⟩ := known
      have kept := (consistent.undisturbed guarantee different).retains curRid victim.owns.holds
      exact congrArg (fun val => some (curRid, val)) (kept.entries index victim.slot).2
  | probeSetRef job index evicted => cases evicted <;> rfl
  | oid word op after entered =>
      cases after with
      | placed job index evicted => cases evicted <;> rfl
      | _ => rfl
  | _ => rfl

/-- The frame rule for one step: the mover's own eviction is all that is left of the victims. -/
theorem Content.step_frame (consistent : Consistent config state)
    (guarantee : Guarantee state t next) (content : Content config state rid image)
    (place : next.place rid = state.place rid) (storage : next.storage rid = state.storage rid)
    (entries
      : ∀ index, state.place rid = .cached index
          → (next.entries index).val = (state.entries index).val)
    (mine : ∀ val, next.victim t = some (rid, val) ↔ state.victim t = some (rid, val))
    : Content config next rid image := by
  refine content.frame place storage entries ?_
  intro thread val
  by_cases same : thread = t
  · exact same ▸ mine val
  · rw [consistent.victim_other guarantee same]

end Frame

end Alchemy.Cache
