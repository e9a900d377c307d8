import EmuChef.App.HandlesLaw

/-! What a session's handles keep over every sequence of calls. -/

namespace EmuChef.App

open Retention SessionHandles

variable {uuid : Nat → String} {session : Session}

def Session.epoch? (session : Session) (handle : String) : Option Nat := session.handles.epoch? handle

def Session.device? (session : Session) (handle : String) : Option DeviceRecord :=
  session.handles.devicesByHandle.get? handle

def Session.review? (session : Session) (name : String) : Option ReviewedPlanSnapshot :=
  session.handles.reviews.get? name

def Reads (session : Session) (name : String) (snapshot : ReviewedPlanSnapshot) : Prop :=
  ∃ delay, (session.handles.review name session.clock (session.clock + delay)).1 = .ok snapshot

def Readable (session : Session) (name : String) : Prop := ∃ snapshot, Reads session name snapshot

/-- The call ends the continuous session of the device behind the handle. -/
inductive ContinuityEnds (uuid : Nat → String) (session : Session) : HandleCall → String → Prop
  | disappears {call : HandleCall} {handle : String} : (session.device? handle).isSome →
      (session.call uuid call).device? handle = none → ContinuityEnds uuid session call handle
  | changes {call : HandleCall} {handle : String} {previous record : DeviceRecord} :
      session.device? handle = some previous →
      (session.call uuid call).device? handle = some record → Changed previous record →
      ContinuityEnds uuid session call handle
  | crowded {inventory : Json} {parsed : List ParsedInventoryDevice} {previous epoch : Nat}
      {handle : String} : parseInventory inventory = .ok parsed →
      session.handles.lastInventoryCount = some previous → previous > 1 ∨ parsed.length > 1 →
      session.epoch? handle = some epoch → ContinuityEnds uuid session (.updateDevices inventory) handle

inductive Retires (session : Session) : HandleCall → String → Prop
  | discarded {name : String} : Retires session (.discardReview name) name
  | invalidated {name code : String} : Retires session (.invalidateReview name code) name
  | all {name : String} : Retires session .invalidateAll name
  | runtime {name : String} : Retires session .invalidateRuntimeAuthorityPreservingIdentities name
  | device {name code : String} {review : ReviewedPlanSnapshot} : session.review? name = some review →
      Retires session (.invalidateReviewsForDevice review.deviceHandle code) name
  | deviceIf {name code : String} {review : ReviewedPlanSnapshot}
      {predicate : ReviewedPlanSnapshot → Bool} : session.review? name = some review →
      predicate review = true →
      Retires session (.invalidateReviewsForDeviceIf review.deviceHandle code predicate) name
  | identity {name : String} {review : ReviewedPlanSnapshot} : session.review? name = some review →
      Retires session (.invalidateIdentityAuthority review.deviceHandle) name
  | evicted {name : String} {rest : List String} {snapshot : ReviewedPlanSnapshot} {delay : Nat} :
      (session.handles.expireReviews session.clock).reviewOrder = name :: rest →
      (session.handles.expireReviews session.clock).reviews.keys.length = maxReviews →
      Retires session (.insertReview snapshot delay) name

structure HandleLaw (uuid : Nat → String) (session : Session) : Prop where
  oneSerial : ∀ calls handle serial other, Denotes session.handles handle serial →
    Denotes (session.run uuid calls).handles handle other → serial = other
  rejected : ∀ inventory message, (session.handles.updateDevices uuid inventory).1 = .error message →
    (session.handles.updateDevices uuid inventory).2 = session.handles
  epochsKept : ∀ calls handle epoch, session.epoch? handle = some epoch →
    ∃ later, (session.run uuid calls).epoch? handle = some later ∧ epoch ≤ later
  /-- The 64-bit counter saturates. -/
  epochsGrow : ∀ call handle, ContinuityEnds uuid session call handle →
    EpochGrows session.handles (session.call uuid call).handles handle ∨
      session.epoch? handle = some maxEpoch
  factsRevoked : ∀ call handle calls value,
    EpochGrows session.handles (session.call uuid call).handles handle →
    ReturnsFacts ((session.call uuid call).run uuid calls).handles handle value →
      ∃ before epoch after, calls = before ++ .setFactsForEpoch handle epoch value :: after ∧
        (((session.call uuid call).run uuid before).handles.setFactsForEpoch handle epoch value).1 = .ok ()
  contextsRevoked : ∀ call handle calls context,
    EpochGrows session.handles (session.call uuid call).handles handle →
    ((session.call uuid call).run uuid calls).handles.qualificationContext handle = some context →
      .setQualificationContext context ∈ calls
  reviewsRevoked : ∀ call handle calls name snapshot,
    EpochGrows session.handles (session.call uuid call).handles handle →
    Reads ((session.call uuid call).run uuid calls) name snapshot → snapshot.deviceHandle = handle →
      ∃ before draft delay after taken, calls = before ++ .insertReview draft delay :: after ∧
        ((session.call uuid call).run uuid before).handles.insertReview uuid draft
          ((session.call uuid call).run uuid before).clock
          (((session.call uuid call).run uuid before).clock + delay) = some (name, taken)
  expired : ∀ name review, session.review? name = some review →
    isExpired session.clock review = true → ¬Readable session name
  retires : ∀ call name, Retires session call name → ¬Readable (session.call uuid call) name
  staysRetired : ∀ name calls more, (session.review? name).isSome →
    ¬Readable (session.run uuid calls) name → ¬Readable ((session.run uuid calls).run uuid more) name
  bounded : session.handles.reviews.keys.length ≤ maxReviews
  listed : session.handles.reviewOrder.Perm session.handles.reviews.keys
  inserts : ∀ snapshot now later, (session.handles.insertReview uuid snapshot now later).isSome

def Live (session : Session) (name : String) (review : ReviewedPlanSnapshot) : Prop :=
  session.review? name = some review ∧ isExpired session.clock review = false

def Session.Sound (uuid : Nat → String) (session : Session) : Prop := session.handles.Valid uuid

structure CallSpec (uuid : Nat → String) (before : Session) (call : HandleCall) (after : Session) :
    Prop where
  sound : after.Sound uuid
  drawn : before.handles.drawn ≤ after.handles.drawn
  epochs : ∀ handle epoch, before.epoch? handle = some epoch →
    ∃ later, after.epoch? handle = some later ∧ epoch ≤ later
  revoked : ∀ handle, EpochGrows before.handles after.handles handle →
    after.handles.qualificationContext handle = none ∧
      (∀ name review, after.review? name = some review → review.deviceHandle ≠ handle) ∧
        ∀ record, after.device? handle = some record → record.facts = none
  contexts : ∀ handle context, after.handles.qualificationContext handle = some context →
    before.handles.qualificationContext handle = some context ∨ call = .setQualificationContext context
  facts : ∀ handle record value, after.device? handle = some record → record.facts = some value →
    (∃ previous, before.device? handle = some previous ∧ previous.facts = some value) ∨
      ∃ epoch, call = .setFactsForEpoch handle epoch value ∧
        (before.handles.setFactsForEpoch handle epoch value).1 = .ok ()
  reviews : ∀ name review, Live after name review →
    (∃ old, Live before name old ∧ old.deviceHandle = review.deviceHandle) ∨
      name = reviewName uuid before.handles.drawn ∧ ∃ draft delay taken,
        call = .insertReview draft delay ∧
          before.handles.insertReview uuid draft before.clock (before.clock + delay) = some (name, taken)
  ends : ∀ handle, (before.device? handle).isSome →
    (after.device? handle = none ∨ ∃ previous record, before.device? handle = some previous ∧
      after.device? handle = some record ∧ Changed previous record) →
    EpochGrows before.handles after.handles handle ∨ before.epoch? handle = some maxEpoch
  owned : ∀ owner, Owned uuid before.handles owner →
    ∃ later, Extends owner later ∧ Owned uuid after.handles later

theorem isExpired_mono {now later : Nat} {review : ReviewedPlanSnapshot} (passed : now ≤ later)
    (fresh : isExpired later review = false) : isExpired now review = false := by
  simp only [isExpired, Bool.or_eq_false_iff, decide_eq_false_iff_not] at fresh ⊢
  omega

theorem not_changed_self (record : DeviceRecord) : ¬Changed record record := by
  rintro (state | model | transport)
  · exact state rfl
  · exact model rfl
  · exact transport rfl

theorem callSpec_of_passive {before after : Session} (sound : before.Sound uuid) (call : HandleCall)
    (moves : Passive before.handles after.handles ∧ ReviewsKept uuid after.handles)
    (clock : before.clock ≤ after.clock) : CallSpec uuid before call after := by
  obtain ⟨passive, kept⟩ := moves
  refine ⟨passive.valid sound kept, passive.drawn.ge, passive.erodes.epochs, ?_, ?_, ?_, ?_, ?_, ?_⟩
  · intro handle grows
    obtain ⟨no_context, no_review⟩ := passive.erodes.revoked handle grows
    refine ⟨no_context, no_review, ?_⟩
    intro record held
    exact absurd grows (not_epochGrows_of_same (passive.devices handle record held).2)
  · intro handle context held
    exact .inl (passive.erodes.contexts handle context held)
  · intro handle record value held carried
    exact .inl ⟨record, (passive.devices handle record held).1, carried⟩
  · intro name review live
    exact .inl ⟨review, ⟨passive.erodes.reviews name review live.1, isExpired_mono clock live.2⟩, rfl⟩
  · intro handle present broken
    obtain ⟨old, held⟩ := Option.isSome_iff_exists.mp present
    have epoch := (sound.records handle old held).2
    rcases broken with absent | ⟨previous, record, known, still, changed⟩
    · rcases passive.disappeared handle _ present absent epoch with grows | spent
      · exact .inl grows
      · exact .inr (spent ▸ epoch)
    · have same := (passive.devices handle record still).1
      have equal : previous = record := Option.some.inj (known.symm.trans same)
      exact absurd (equal ▸ changed) (not_changed_self record)
  · intro owner owned
    exact ⟨owner, fun _ _ known => known, owned.mono passive.denotes passive.drawn.ge⟩

theorem callSpec_reconcile (distinct : Function.Injective uuid) (sound : session.Sound uuid)
    (call : HandleCall) (parsed : List ParsedInventoryDevice) :
    CallSpec uuid session call { session with handles := session.handles.reconcile uuid parsed } := by
  have spec := reconcile_reconciles distinct parsed sound.bounded sound.reviews
  refine ⟨⟨spec.bounded, spec.reviews, spec.records⟩, spec.drawn, spec.erodes.epochs, ?_, ?_, ?_, ?_, ?_,
    spec.owned⟩
  · intro handle grows
    obtain ⟨no_context, no_review⟩ := spec.erodes.revoked handle grows
    refine ⟨no_context, no_review, ?_⟩
    intro record held
    rw [Option.eq_none_iff_forall_ne_some]
    intro value carried
    obtain ⟨previous, old, same, -⟩ := spec.facts handle record value held carried
    obtain ⟨epoch, larger, early, late, larger_epoch⟩ := grows
    rw [(sound.records handle previous old).2] at early
    rw [(spec.records handle record held).2] at late
    cases early
    cases late
    omega
  · intro handle context held
    exact .inl (spec.erodes.contexts handle context held)
  · intro handle record value held carried
    obtain ⟨previous, old, -, kept⟩ := spec.facts handle record value held carried
    exact .inl ⟨previous, old, kept⟩
  · intro name review live
    exact .inl ⟨review, ⟨spec.erodes.reviews name review live.1, live.2⟩, rfl⟩
  · intro handle present broken
    obtain ⟨old, held⟩ := Option.isSome_iff_exists.mp present
    have epoch := (sound.records handle old held).2
    have ended : EpochGrows session.handles (session.handles.reconcile uuid parsed) handle ∨
        old.sessionEpoch = maxEpoch := by
      rcases broken with absent | ⟨previous, record, known, still, changed⟩
      · exact spec.disappeared handle _ present absent epoch
      · exact spec.changed handle record previous _ still known changed epoch
    rcases ended with grows | spent
    · exact .inl grows
    · exact .inr (spent ▸ epoch)

theorem callSpec_updateDevices (distinct : Function.Injective uuid) (sound : session.Sound uuid)
    (inventory : Json) :
    CallSpec uuid session (.updateDevices inventory) (session.call uuid (.updateDevices inventory)) := by
  rw [Session.call, SessionHandles.updateDevices]
  split
  next =>
    exact callSpec_of_passive sound _
      ⟨passive_removeReviews sound.bounded "" [], sound.reviews⟩ (Nat.le_refl _)
  next parsed accepted => exact callSpec_reconcile distinct sound _ parsed

theorem ends_of_still {before after : Session} (devices : ∀ handle previous,
      before.device? handle = some previous → ∃ record, after.device? handle = some record ∧
        ¬Changed previous record) {handle : String} (present : (before.device? handle).isSome)
    (broken : after.device? handle = none ∨ ∃ previous record, before.device? handle = some previous ∧
      after.device? handle = some record ∧ Changed previous record) : False := by
  rcases broken with absent | ⟨previous, record, known, still, changed⟩
  · obtain ⟨old, held⟩ := Option.isSome_iff_exists.mp present
    obtain ⟨record, still, -⟩ := devices handle old held
    rw [absent] at still
    exact nomatch still
  · obtain ⟨other, found, unchanged⟩ := devices handle previous known
    rw [still] at found
    cases found
    exact unchanged changed

theorem callSpec_setFactsForEpoch (sound : session.Sound uuid) (handle : String) (expectedEpoch : Nat)
    (facts : Json) :
    CallSpec uuid session (.setFactsForEpoch handle expectedEpoch facts)
      (session.call uuid (.setFactsForEpoch handle expectedEpoch facts)) := by
  rw [Session.call]
  rcases setFactsForEpoch_spec sound handle expectedEpoch facts with
    same | ⟨record, middle, held, current, same, kept, fewer, settled⟩
  · rw [same]
    exact callSpec_of_passive sound _
      ⟨passive_removeReviews sound.bounded "" [], sound.reviews⟩ (Nat.le_refl _)
  · rw [settled]
    have epochs : ∀ other, middle.epoch? other = session.handles.epoch? other := same.epoch?
    have devices : ∀ other, (middle.devicesByHandle.insert handle
        { record with facts := some facts, factsSessionEpoch := some expectedEpoch }).get? other =
          if other = handle then
            some { record with facts := some facts, factsSessionEpoch := some expectedEpoch }
          else session.device? other := by
      intro other
      rw [OrderedMap.get?_insert, same.devices]
      rfl
    have passive := same.passive sound.bounded fewer
    refine ⟨⟨passive.bounded, kept.of_same rfl rfl rfl (Nat.le_refl _), ?_⟩, same.drawn_eq.ge, ?_, ?_, ?_, ?_,
      ?_, ?_, ?_⟩
    · intro other found inside
      simp only [devices] at inside
      have epoch := epochs other
      split at inside
      next here =>
        subst here
        cases inside
        obtain ⟨named, entered⟩ := sound.records other record held
        exact ⟨named, epoch.trans entered⟩
      next =>
        obtain ⟨named, entered⟩ := sound.records other found inside
        exact ⟨named, epoch.trans entered⟩
    · intro other epoch early
      exact ⟨epoch, (epochs other).trans early, Nat.le_refl _⟩
    · intro other grows
      exact absurd grows (not_epochGrows_of_same (epochs other))
    · intro other context inside
      exact .inl ((same.context other).symm.trans inside)
    · intro other found value inside carried
      simp only [Session.device?, devices] at inside
      split at inside
      next here =>
        subst here
        cases inside
        cases carried
        exact .inr ⟨expectedEpoch, rfl, by rw [settled]⟩
      next => exact .inl ⟨found, inside, carried⟩
    · intro name review live
      exact .inl ⟨review, ⟨fewer name review live.1, live.2⟩, rfl⟩
    · intro other present broken
      refine (ends_of_still ?_ present broken).elim
      intro name previous known
      simp only [Session.device?, devices]
      split
      next here =>
        subst here
        have equal : record = previous := Option.some.inj (held.symm.trans known)
        subst equal
        exact ⟨_, rfl, not_changed_self record⟩
      next => exact ⟨previous, known, not_changed_self previous⟩
    · intro owner owned
      refine ⟨owner, fun _ _ known => known, owned.mono ?_ same.drawn_eq.ge⟩
      rintro other serial (known | ⟨found, inside, rfl⟩)
      · exact same.denotes.mp (.inl known)
      · simp only [devices] at inside
        split at inside
        next here =>
          subst here
          cases inside
          exact .inr ⟨record, held, rfl⟩
        next => exact .inr ⟨found, inside, rfl⟩

theorem callSpec_of_sameDevices {before after : Session} {call : HandleCall} (sound : before.Sound uuid)
    (kept : ReviewsKept uuid after.handles) (drawn : before.handles.drawn ≤ after.handles.drawn)
    (epochs : after.handles.sessionEpochByHandle = before.handles.sessionEpochByHandle)
    (devices : after.handles.devicesByHandle = before.handles.devicesByHandle)
    (named : after.handles.handleBySerial = before.handles.handleBySerial)
    (contexts : ∀ handle context, after.handles.qualificationContext handle = some context →
      before.handles.qualificationContext handle = some context ∨ call = .setQualificationContext context)
    (reviews : ∀ name review, Live after name review →
      (∃ old, Live before name old ∧ old.deviceHandle = review.deviceHandle) ∨
        name = reviewName uuid before.handles.drawn ∧ ∃ draft delay taken,
          call = .insertReview draft delay ∧
            before.handles.insertReview uuid draft before.clock (before.clock + delay) =
              some (name, taken)) :
    CallSpec uuid before call after := by
  have epoch : ∀ handle, after.handles.epoch? handle = before.handles.epoch? handle := by
    intro handle
    rw [SessionHandles.epoch?, epochs]
    rfl
  refine ⟨⟨?_, kept, ?_⟩, drawn, ?_, ?_, contexts, ?_, reviews, ?_, ?_⟩
  · intro handle known held
    exact sound.bounded handle known (epoch handle ▸ held)
  · intro handle record held
    rw [devices] at held
    obtain ⟨name, entered⟩ := sound.records handle record held
    exact ⟨name, (epoch handle).trans entered⟩
  · intro handle known held
    exact ⟨known, (epoch handle).trans held, Nat.le_refl _⟩
  · intro handle grows
    exact absurd grows (not_epochGrows_of_same (epoch handle))
  · intro handle record value held carried
    rw [Session.device?, devices] at held
    exact .inl ⟨record, held, carried⟩
  · intro handle present broken
    refine (ends_of_still ?_ present broken).elim
    intro other previous known
    exact ⟨previous, (congrArg (·.get? other) devices).trans known, not_changed_self previous⟩
  · intro owner owned
    refine ⟨owner, fun _ _ known => known, owned.mono ?_ drawn⟩
    intro handle serial denotes
    rw [Denotes, devices, named] at denotes
    exact denotes

theorem callSpec_setQualificationContext (sound : session.Sound uuid) (context : QualificationContextKey) :
    CallSpec uuid session (.setQualificationContext context)
      (session.call uuid (.setQualificationContext context)) := by
  obtain ⟨middle, same, kept, fewer, settled⟩ := setQualificationContext_spec sound context
  rw [Session.call, settled]
  refine callSpec_of_sameDevices sound (kept.of_same rfl rfl rfl (Nat.le_refl _)) same.drawn_eq.ge ?_ ?_ ?_
    ?_ ?_
  · rw [same]
  · exact same.devices
  · rw [same]
  · intro handle other held
    have inside : (middle.qualificationContextByHandle.insert context.deviceHandle context).get? handle =
        some other := held
    rw [OrderedMap.get?_insert] at inside
    split at inside
    · cases inside
      exact .inr rfl
    · exact .inl ((same.context handle).symm.trans inside)
  · intro name review live
    exact .inl ⟨review, ⟨fewer name review live.1, live.2⟩, rfl⟩

theorem callSpec_insertReview (distinct : Function.Injective uuid) (sound : session.Sound uuid)
    (snapshot : ReviewedPlanSnapshot) (delay : Nat) :
    CallSpec uuid session (.insertReview snapshot delay)
      (session.call uuid (.insertReview snapshot delay)) := by
  obtain ⟨after, inserted, kept, same, origin⟩ :=
    insertReview_spec distinct sound snapshot session.clock (session.clock + delay)
  rw [Session.call, inserted]
  have drawn : after.drawn = session.handles.drawn + 1 := same.drawn_eq
  refine callSpec_of_sameDevices sound kept (by dsimp only; omega) ?_ ?_ ?_ ?_ ?_
  · rw [same]
  · exact same.devices
  · rw [same]
  · intro handle context held
    exact .inl ((same.context handle).symm.trans held)
  · intro name review live
    rcases origin name review live.1 with ⟨rfl, -⟩ | ⟨retained, current⟩
    · exact .inr ⟨rfl, snapshot, delay, after, rfl, inserted⟩
    · exact .inl ⟨review, ⟨retained, current⟩, rfl⟩

theorem callSpec_review (sound : session.Sound uuid) (name : String) (delay : Nat) :
    CallSpec uuid session (.review name delay) (session.call uuid (.review name delay)) := by
  have same : SameDevices session.handles (session.handles.expireReviews session.clock) :=
    sameDevices_removeReviews ..
  have kept : ReviewsKept uuid (session.handles.expireReviews session.clock) :=
    sound.reviews.removeReviewsWhere _ _
  have passive : Passive session.handles (session.handles.expireReviews session.clock) :=
    passive_removeReviews sound.bounded _ _
  rw [Session.call]
  rcases review_spec sound.reviews name session.clock (session.clock + delay) with
    ⟨found, retained, current, read⟩ | ⟨-, left, -⟩
  · rw [read]
    have present : name ∈ (session.handles.expireReviews session.clock).reviews.keys := by
      apply OrderedMap.get?_isSome.mp
      rw [get?_expireReviews.mpr ⟨retained, current⟩]
      rfl
    refine callSpec_of_sameDevices sound ⟨kept.inStep.overwrite present _, ?_, ?_, ?_⟩ same.drawn_eq.ge ?_
      same.devices ?_ ?_ ?_
    · have before := kept.inStep.perm.length_eq
      have after := (kept.inStep.overwrite present
        { found with lastAccess := session.clock + delay }).perm.length_eq
      have bounded := kept.bounded
      dsimp only
      omega
    · intro other member
      rcases OrderedMap.keys_insert.mp member with rfl | old
      · exact kept.issued _ present
      · exact kept.issued other old
    · intro tombstone member
      obtain ⟨issued, absent⟩ := kept.retired tombstone member
      refine ⟨issued, fun inside => ?_⟩
      rcases OrderedMap.keys_insert.mp inside with here | old
      · exact absent (here ▸ present)
      · exact absent old
    · simp only
      rw [same]
    · simp only
      rw [same]
    · intro handle context held
      exact .inl ((same.context handle).symm.trans held)
    · intro other review live
      have inside : ((session.handles.expireReviews session.clock).reviews.insert name
          { found with lastAccess := session.clock + delay }).get? other = some review := live.1
      rw [OrderedMap.get?_insert] at inside
      split at inside
      next here =>
        subst here
        cases inside
        exact .inl ⟨found, ⟨retained, current⟩, rfl⟩
      next => exact .inl ⟨review, get?_expireReviews.mp inside, rfl⟩
  · rw [left]
    exact callSpec_of_passive sound _ ⟨passive, kept⟩ (Nat.le_add_right _ _)

theorem callSpec_call (distinct : Function.Injective uuid) (sound : session.Sound uuid)
    (call : HandleCall) : CallSpec uuid session call (session.call uuid call) := by
  cases call with
  | wait elapsed =>
      exact callSpec_of_passive sound _ ⟨passive_removeReviews sound.bounded "" [], sound.reviews⟩
        (Nat.le_add_right _ _)
  | updateDevices inventory => exact callSpec_updateDevices distinct sound inventory
  | setFactsForEpoch handle expectedEpoch facts =>
      exact callSpec_setFactsForEpoch sound handle expectedEpoch facts
  | setQualificationContext context => exact callSpec_setQualificationContext sound context
  | clearQualificationContext handle =>
      exact callSpec_of_passive sound _ (passive_clearQualificationContext sound handle) (Nat.le_refl _)
  | insertReview snapshot delay => exact callSpec_insertReview distinct sound snapshot delay
  | review handle delay => exact callSpec_review sound handle delay
  | discardReview handle =>
      exact callSpec_of_passive sound _ (passive_discardReview sound handle _) (Nat.le_refl _)
  | invalidateReview handle code =>
      exact callSpec_of_passive sound _ (passive_invalidateReview sound handle code) (Nat.le_refl _)
  | invalidateAll => exact callSpec_of_passive sound _ (passive_invalidateAll sound) (Nat.le_refl _)
  | invalidateRuntimeAuthorityPreservingIdentities =>
      exact callSpec_of_passive sound _ (passive_invalidateRuntimeAuthority sound) (Nat.le_refl _)
  | invalidateReviewsForDevice deviceHandle code =>
      exact callSpec_of_passive sound _
        (passive_invalidateReviewsForDeviceIf sound deviceHandle code fun _ => true) (Nat.le_refl _)
  | invalidateReviewsForDeviceIf deviceHandle code predicate =>
      exact callSpec_of_passive sound _
        (passive_invalidateReviewsForDeviceIf sound deviceHandle code predicate) (Nat.le_refl _)
  | invalidateIdentityAuthority deviceHandle =>
      exact callSpec_of_passive sound _ (passive_invalidateIdentityAuthority sound deviceHandle)
        (Nat.le_refl _)

section

theorem sound_initial : Session.initial.Sound uuid := by
  refine ⟨nofun, ⟨inStep_empty, Nat.zero_le _, nofun, nofun⟩, nofun⟩

theorem sound_call (distinct : Function.Injective uuid) (session : Session) (call : HandleCall)
    (sound : session.Sound uuid) : (session.call uuid call).Sound uuid :=
  (callSpec_call distinct sound call).sound

theorem sound_run (distinct : Function.Injective uuid) (sound : session.Sound uuid)
    (calls : List HandleCall) : (session.run uuid calls).Sound uuid :=
  foldl_kept (sound_call distinct) sound calls

variable {handle name : String} {snapshot : ReviewedPlanSnapshot} {calls : List HandleCall}

theorem epochs_run (distinct : Function.Injective uuid) (sound : session.Sound uuid)
    (calls : List HandleCall) {epoch : Nat} (held : session.epoch? handle = some epoch) :
    ∃ later, (session.run uuid calls).epoch? handle = some later ∧ epoch ≤ later := by
  induction calls generalizing session epoch with
  | nil => exact ⟨epoch, held, Nat.le_refl _⟩
  | cons call calls ih =>
      obtain ⟨middle, there, le_middle⟩ := (callSpec_call distinct sound call).epochs handle epoch held
      obtain ⟨later, final, le_later⟩ := ih (sound_call distinct session call sound) there
      exact ⟨later, final, by omega⟩

theorem owned_run (distinct : Function.Injective uuid) (sound : session.Sound uuid)
    (calls : List HandleCall) {owner : String → Option String} (owned : Owned uuid session.handles owner) :
    ∃ later, Extends owner later ∧ Owned uuid (session.run uuid calls).handles later := by
  induction calls generalizing session owner with
  | nil => exact ⟨owner, fun _ _ known => known, owned⟩
  | cons call calls ih =>
      obtain ⟨middle, extends_owner, owned_middle⟩ := (callSpec_call distinct sound call).owned owner owned
      obtain ⟨later, extends_middle, owned_later⟩ := ih (sound_call distinct session call sound) owned_middle
      exact ⟨later, fun handle serial known => extends_middle _ _ (extends_owner _ _ known), owned_later⟩

theorem owned_initial : Owned uuid Session.initial.handles fun _ => none := by
  refine ⟨?_, nofun⟩
  rintro handle serial (known | ⟨record, held, -⟩)
  · exact nomatch known
  · exact nomatch held

theorem readable_iff (sound : session.Sound uuid) :
    Readable session name ↔ ∃ review, Live session name review := by
  constructor
  · rintro ⟨snapshot, delay, read⟩
    rcases review_spec sound.reviews name session.clock (session.clock + delay) with
      ⟨found, retained, current, -⟩ | ⟨-, -, message, failed⟩
    · exact ⟨found, retained, current⟩
    · rw [failed] at read
      exact nomatch read
  · rintro ⟨review, retained, current⟩
    rcases review_spec sound.reviews name session.clock (session.clock + 0) with
      ⟨found, -, -, read⟩ | ⟨stale, -⟩
    · exact ⟨{ found with lastAccess := session.clock + 0 }, 0, by rw [read]⟩
    · rw [stale review retained] at current
      exact nomatch current

theorem live_of_reads (sound : session.Sound uuid) (reads : Reads session name snapshot) :
    ∃ review, Live session name review ∧ review.deviceHandle = snapshot.deviceHandle := by
  obtain ⟨delay, read⟩ := reads
  rcases review_spec sound.reviews name session.clock (session.clock + delay) with
    ⟨found, retained, current, settled⟩ | ⟨-, -, message, failed⟩
  · rw [settled] at read
    cases read
    exact ⟨found, ⟨retained, current⟩, rfl⟩
  · rw [failed] at read
    exact nomatch read

theorem not_live_run (distinct : Function.Injective uuid) (sound : session.Sound uuid)
    (issued : Issued (reviewName uuid) session.handles.drawn name)
    (stale : ∀ review, ¬Live session name review) (calls : List HandleCall) :
    ∀ review, ¬Live (session.run uuid calls) name review := by
  induction calls generalizing session with
  | nil => exact stale
  | cons call calls ih =>
      have spec := callSpec_call distinct sound call
      apply ih spec.sound (issued.mono spec.drawn)
      intro review live
      rcases spec.reviews name review live with ⟨old, before, -⟩ | ⟨rfl, -⟩
      · exact stale old before
      · exact not_issued_next (reviewName_injective distinct) issued

theorem drawn_run (distinct : Function.Injective uuid) (sound : session.Sound uuid)
    (calls : List HandleCall) : session.handles.drawn ≤ (session.run uuid calls).handles.drawn := by
  induction calls generalizing session with
  | nil => exact Nat.le_refl _
  | cons call calls ih =>
      have spec := callSpec_call distinct sound call
      exact spec.drawn.trans (ih spec.sound)

theorem record_of_returnsFacts (sound : session.Sound uuid) {value : Json}
    (returns : ReturnsFacts session.handles handle value) :
    ∃ record, session.device? handle = some record ∧ record.facts = some value := by
  have of_device : ∀ record, session.handles.device handle = .ok record →
      session.device? handle = some record := by
    intro record found
    rw [SessionHandles.device] at found
    split at found
    next held =>
      cases found
      exact held
    next => cases found
  have of_facts : session.handles.facts handle = .ok value →
      ∃ record, session.device? handle = some record ∧ record.facts = some value := by
    intro found
    rw [SessionHandles.facts] at found
    cases known : session.handles.device handle with
    | error message =>
        rw [known] at found
        cases found
    | ok record =>
        rw [known] at found
        simp only [bind, Except.bind] at found
        split at found
        · cases found
        · cases held : record.facts with
          | none =>
              rw [held] at found
              cases found
          | some facts =>
              rw [held] at found
              cases found
              exact ⟨record, of_device record known, held⟩
  rcases returns with plain | ⟨epoch, tagged⟩ | ⟨record, known, carried⟩ | ⟨record, member, named, carried⟩
  · exact of_facts plain
  · apply of_facts
    rw [SessionHandles.factsWithEpoch] at tagged
    cases known : session.handles.device handle with
    | error message =>
        rw [known] at tagged
        cases tagged
    | ok record =>
        cases read : session.handles.facts handle with
        | error message =>
            rw [known, read] at tagged
            cases tagged
        | ok facts =>
            rw [known, read] at tagged
            simp only [bind, Except.bind] at tagged
            split at tagged
            · cases tagged
              rfl
            · cases tagged
  · exact ⟨record, of_device record known, carried⟩
  · rw [qualificationDevices, List.mem_mergeSort, OrderedMap.values, List.mem_map] at member
    obtain ⟨⟨key, held⟩, listed, rfl⟩ := member
    have found := OrderedMap.get?_eq_some.mpr listed
    have same : held.handle = key := (sound.records key held found).1
    exact ⟨held, (named ▸ same) ▸ found, carried⟩

theorem evictReviews_fewer {handles after : SessionHandles} {order : List String}
    (evicted : handles.evictReviews order = some after)
    (absent : handles.reviews.get? name = none) : after.reviews.get? name = none := by
  induction order generalizing handles with
  | nil =>
      rw [evictReviews] at evicted
      split at evicted
      · cases evicted
        exact absent
      · cases evicted
  | cons oldest rest ih =>
      rw [evictReviews] at evicted
      split at evicted
      · cases evicted
        exact absent
      · apply ih evicted
        simp only [pushTombstone, OrderedMap.get?_erase]
        split
        · rfl
        · exact absent

theorem evicted_absent (distinct : Function.Injective uuid) (sound : session.Sound uuid)
    {rest : List String} {delay : Nat}
    (oldest : (session.handles.expireReviews session.clock).reviewOrder = name :: rest)
    (full : (session.handles.expireReviews session.clock).reviews.keys.length = maxReviews) :
    (session.call uuid (.insertReview snapshot delay)).review? name = none := by
  have kept : ReviewsKept uuid (session.handles.expireReviews session.clock) :=
    sound.reviews.removeReviewsWhere _ _
  have same : SameDevices session.handles (session.handles.expireReviews session.clock) :=
    sameDevices_removeReviews ..
  obtain ⟨after, evicting, -⟩ := evictReviews_some kept
  have known : name ∈ (session.handles.expireReviews session.clock).reviews.keys := by
    rw [← kept.inStep.same, oldest]
    exact List.mem_cons_self ..
  have gone : after.reviews.get? name = none := by
    rw [oldest, evictReviews, if_neg (by omega)] at evicting
    apply evictReviews_fewer evicting
    simp [pushTombstone]
  have fresh : name ≠ reviewName uuid after.drawn := by
    rintro rfl
    have issued := kept.issued _ known
    rw [← (sameDevices_evictReviews evicting).drawn_eq] at issued
    exact not_issued_next (reviewName_injective distinct) issued
  rw [Session.call, SessionHandles.insertReview]
  simp only [evicting, Option.bind_eq_bind, Option.bind_some, pure, Session.review?, OrderedMap.get?_insert,
    if_neg fresh, gone]

theorem not_readable_of_absent (sound : session.Sound uuid)
    (absent : session.review? name = none) : ¬Readable session name := by
  rw [readable_iff sound]
  rintro ⟨review, held, -⟩
  rw [absent] at held
  exact nomatch held

theorem absent_of_retires (distinct : Function.Injective uuid) (sound : session.Sound uuid)
    {call : HandleCall} (retires : Retires session call name) :
    (session.call uuid call).review? name = none := by
  cases retires with
  | discarded =>
      rw [Session.call, discardReview]
      split
      · exact get?_removeReview.trans (if_pos rfl)
      next missing =>
        have absent : (session.handles.expireReviews session.clock).reviews.get? name = none := by
          simpa using missing
        split
        · exact absent
        · exact absent
  | invalidated =>
      rw [Session.call, invalidateReview]
      split
      · exact get?_removeReview.trans (if_pos rfl)
      next missing =>
        have absent : session.handles.reviews.get? name = none := by simpa using missing
        exact absent
  | all => exact get?_reviews_invalidateRuntimeAuthority
  | runtime => exact get?_reviews_invalidateRuntimeAuthority
  | device held =>
      refine Option.eq_none_iff_forall_ne_some.mpr fun review left => ?_
      obtain ⟨same, other⟩ := get?_invalidateReviewsForDevice.mp left
      rw [← Session.review?, held] at same
      cases same
      exact other rfl
  | deviceIf held holds =>
      refine Option.eq_none_iff_forall_ne_some.mpr fun review left => ?_
      obtain ⟨same, other⟩ := get?_removeReviewsWhere.mp left
      rw [← Session.review?, held] at same
      cases same
      simp [holds] at other
  | identity held =>
      refine Option.eq_none_iff_forall_ne_some.mpr fun review left => ?_
      obtain ⟨same, other⟩ := get?_reviews_invalidateIdentityAuthority.mp left
      rw [← Session.review?, held] at same
      cases same
      exact other rfl
  | evicted oldest full => exact evicted_absent distinct sound oldest full

theorem ends_of_continuityEnds (distinct : Function.Injective uuid) (sound : session.Sound uuid)
    {call : HandleCall} (ends : ContinuityEnds uuid session call handle) :
    EpochGrows session.handles (session.call uuid call).handles handle ∨
      session.epoch? handle = some maxEpoch := by
  have spec := callSpec_call distinct sound call
  cases ends with
  | disappears present absent => exact spec.ends handle present (.inl absent)
  | changes known still changed =>
      exact spec.ends handle (Option.isSome_iff_exists.mpr ⟨_, known⟩) (.inr ⟨_, _, known, still, changed⟩)
  | @crowded inventory parsed previous epoch handle read counted crowded held =>
      have reconciled := reconcile_reconciles distinct parsed sound.bounded sound.reviews
      rw [Session.call, SessionHandles.updateDevices, read]
      rcases reconciled.crowded handle _ _ counted crowded held with grows | spent
      · exact .inl grows
      · exact .inr (spent ▸ held)

theorem factsRevoked_of_sound (distinct : Function.Injective uuid) (sound : session.Sound uuid)
    {value : Json}
    (cleared : ∀ record, session.device? handle = some record → record.facts = none)
    (returns : ReturnsFacts (session.run uuid calls).handles handle value) :
    ∃ before epoch after, calls = before ++ .setFactsForEpoch handle epoch value :: after ∧
      ((session.run uuid before).handles.setFactsForEpoch handle epoch value).1 = .ok () := by
  have held := record_of_returnsFacts (sound_run distinct sound calls) returns
  rcases @foldl_origin Session HandleCall (Session.call uuid) (Session.Sound uuid)
      (fun state => ∃ record, state.device? handle = some record ∧ record.facts = some value)
      (fun state call => ∃ epoch, call = .setFactsForEpoch handle epoch value ∧
        (state.handles.setFactsForEpoch handle epoch value).1 = .ok ())
      (sound_call distinct)
      (fun state call sound_state ⟨record, known, carried⟩ =>
        (callSpec_call distinct sound_state call).facts handle record value known carried)
      session sound calls held with
    ⟨record, known, carried⟩ | ⟨before, call, after, rfl, epoch, rfl, accepted⟩
  · rw [cleared record known] at carried
    exact nomatch carried
  · exact ⟨before, epoch, after, rfl, accepted⟩

theorem contextsRevoked_of_sound (distinct : Function.Injective uuid)
    (sound : session.Sound uuid) {context : QualificationContextKey}
    (cleared : session.handles.qualificationContext handle = none)
    (held : (session.run uuid calls).handles.qualificationContext handle = some context) :
    .setQualificationContext context ∈ calls := by
  rcases @foldl_origin Session HandleCall (Session.call uuid) (Session.Sound uuid)
      (fun state => state.handles.qualificationContext handle = some context)
      (fun _ call => call = .setQualificationContext context) (sound_call distinct)
      (fun state call sound_state known =>
        (callSpec_call distinct sound_state call).contexts handle context known)
      session sound calls held with
    early | ⟨before, call, after, rfl, rfl⟩
  · rw [cleared] at early
    exact nomatch early
  · simp

theorem reviewsRevoked_of_sound (distinct : Function.Injective uuid)
    (sound : session.Sound uuid)
    (cleared : ∀ name review, session.review? name = some review →
      review.deviceHandle ≠ snapshot.deviceHandle)
    (reads : Reads (session.run uuid calls) name snapshot) :
    ∃ before draft delay after taken, calls = before ++ .insertReview draft delay :: after ∧
      (session.run uuid before).handles.insertReview uuid draft (session.run uuid before).clock
        ((session.run uuid before).clock + delay) = some (name, taken) := by
  have live := live_of_reads (sound_run distinct sound calls) reads
  rcases @foldl_origin Session HandleCall (Session.call uuid) (Session.Sound uuid)
      (fun state => ∃ review, Live state name review ∧ review.deviceHandle = snapshot.deviceHandle)
      (fun state call => ∃ draft delay taken, call = .insertReview draft delay ∧
        state.handles.insertReview uuid draft state.clock (state.clock + delay) = some (name, taken))
      (sound_call distinct)
      (fun state call sound_state ⟨review, known, bound⟩ => by
        rcases (callSpec_call distinct sound_state call).reviews name review known with
          ⟨old, before, same⟩ | ⟨-, inserted⟩
        · exact .inl ⟨old, before, same.trans bound⟩
        · exact .inr inserted)
      session sound calls live with
    ⟨review, known, bound⟩ | ⟨before, call, after, rfl, draft, delay, taken, rfl, inserted⟩
  · exact absurd bound (cleared name review known.1)
  · exact ⟨before, draft, delay, after, taken, rfl, inserted⟩

theorem handleLaw_of_sound (distinct : Function.Injective uuid) (sound : session.Sound uuid)
    {owner : String → Option String} (owned : Owned uuid session.handles owner) :
    HandleLaw uuid session where
  oneSerial := by
    intro calls handle serial other here there
    obtain ⟨later, extends_owner, owned_later⟩ := owned_run distinct sound calls owned
    have first := extends_owner handle serial (owned.denoted handle serial here)
    have second := owned_later.denoted handle other there
    exact Option.some.inj (first.symm.trans second)
  rejected := by
    intro inventory message failed
    rw [SessionHandles.updateDevices] at failed ⊢
    split at failed
    · rfl
    · exact nomatch failed
  epochsKept := fun calls handle epoch held => epochs_run distinct sound calls held
  epochsGrow := fun call handle ends => ends_of_continuityEnds distinct sound ends
  factsRevoked := by
    intro call handle calls value grows returns
    have spec := callSpec_call distinct sound call
    exact factsRevoked_of_sound distinct spec.sound (spec.revoked handle grows).2.2 returns
  contextsRevoked := by
    intro call handle calls context grows held
    have spec := callSpec_call distinct sound call
    exact contextsRevoked_of_sound distinct spec.sound (spec.revoked handle grows).1 held
  reviewsRevoked := by
    rintro call handle calls name snapshot grows reads rfl
    have spec := callSpec_call distinct sound call
    exact reviewsRevoked_of_sound distinct spec.sound (spec.revoked _ grows).2.1 reads
  expired := by
    intro name review held stale readable
    obtain ⟨other, retained, current⟩ := (readable_iff sound).mp readable
    have same : review = other := Option.some.inj (held.symm.trans retained)
    rw [← same, stale] at current
    exact nomatch current
  retires := by
    intro call name retires
    exact not_readable_of_absent (sound_call distinct session call sound)
      (absent_of_retires distinct sound retires)
  staysRetired := by
    intro name calls more retained unreadable readable
    have sound_middle := sound_run distinct sound calls
    have issued := sound.reviews.issued name (OrderedMap.get?_isSome.mp retained)
    obtain ⟨review, live⟩ := (readable_iff (sound_run distinct sound_middle more)).mp readable
    refine not_live_run distinct sound_middle (issued.mono (drawn_run distinct sound calls)) ?_ more review live
    intro old alive
    exact unreadable ((readable_iff sound_middle).mpr ⟨old, alive⟩)
  bounded := sound.reviews.bounded
  listed := sound.reviews.inStep.perm
  inserts := by
    intro snapshot now later
    obtain ⟨after, inserted, -⟩ := insertReview_spec distinct sound snapshot now later
    rw [inserted]
    rfl

/-- Every state of a session keeps the law, whatever was called and however much time passed. -/
theorem run_handleLaw (distinct : Function.Injective uuid) (calls : List HandleCall) :
    HandleLaw uuid (Session.initial.run uuid calls) := by
  obtain ⟨owner, -, owned⟩ := owned_run distinct sound_initial calls owned_initial
  exact handleLaw_of_sound distinct (sound_run distinct sound_initial calls) owned

def availableDevice (serial : String) : Json :=
  .object [("serial", .string serial), ("state", .string "available"), ("transportId", .string "1")]

def inventoryOf (serials : List String) : Json :=
  .object [("devices", .array (serials.map availableDevice))]

theorem toString_injective : Function.Injective (toString : Nat → String) := by
  intro first second same
  have digits : Nat.toDigits 10 first = Nat.toDigits 10 second := by
    rw [← Nat.toList_repr, ← Nat.toList_repr]
    exact congrArg String.toList same
  rw [← @Nat.ofDigitChars_ten_toDigits first, digits, Nat.ofDigitChars_ten_toDigits]

def reviewedSession : Session :=
  Session.initial.run toString [.updateDevices (inventoryOf ["A", "B"]),
    .insertReview ⟨.null, .null, .null, "digest", "device_0", none, none, 0, 0⟩ 1]

-- The review of one of two devices is readable until it is discarded.
theorem run_handleLaw_sample : HandleLaw toString reviewedSession ∧
    reviewedSession.handles.devicesByHandle.keys = ["device_0", "device_1"] ∧
      Readable reviewedSession "review_2" ∧
        ¬Readable (reviewedSession.call toString (.discardReview "review_2")) "review_2" := by
  have law : HandleLaw toString reviewedSession := run_handleLaw toString_injective _
  exact ⟨law, by decide +kernel, ⟨_, 0, rfl⟩, law.retires _ _ .discarded⟩

def SessionBreaks (uuid : Nat → String) (session : Session) (call : HandleCall) (handle : String) : Prop :=
  ContinuityEnds uuid session call handle ∨ ∃ inventory parsed epoch, call = .updateDevices inventory ∧
    parseInventory inventory = .ok parsed ∧ parsed.length > 1 ∧ session.epoch? handle = some epoch

def resetSession : Session :=
  Session.initial.run toString
    [.updateDevices (inventoryOf ["A"]), .invalidateRuntimeAuthorityPreservingIdentities]

def sessionAt (epoch : Nat) : Session where
  handles :=
    { SessionHandles.initial with
      handleBySerial := .ofList [("A", "device_0")]
      identityOrder := ["A"]
      deviceGeneration := 1
      sessionEpochByHandle := .ofList [("device_0", epoch)]
      drawn := 1 }
  clock := 0

theorem run_resets (count epoch : Nat) :
    (sessionAt epoch).run toString (List.replicate count .invalidateRuntimeAuthorityPreservingIdentities) =
      sessionAt (nextEpoch^[count] epoch) := by
  induction count generalizing epoch with
  | zero => rfl
  | succ count ih => exact ih (nextEpoch epoch)

theorem iterate_nextEpoch {count epoch : Nat} (bounded : epoch ≤ maxEpoch)
    (enough : maxEpoch ≤ epoch + count) : nextEpoch^[count] epoch = maxEpoch := by
  induction count generalizing epoch with
  | zero => exact Nat.le_antisymm bounded enough
  | succ count ih =>
      rw [Function.iterate_succ_apply]
      apply ih (nextEpoch_le epoch)
      rcases lt_nextEpoch bounded with grows | spent
      · omega
      · have := le_nextEpoch bounded
        omega

def wornSession (resets : Nat) : Session :=
  Session.initial.run toString
    ([.updateDevices (inventoryOf ["A"])] ++
      List.replicate resets .invalidateRuntimeAuthorityPreservingIdentities ++
        [.updateDevices (inventoryOf ["A"])])

theorem wornSession_eq {count : Nat} (enough : maxEpoch ≤ 2 + count) :
    wornSession (count + 1) = (sessionAt maxEpoch).call toString (.updateDevices (inventoryOf ["A"])) := by
  have first : (Session.initial.call toString (.updateDevices (inventoryOf ["A"]))).call toString
      .invalidateRuntimeAuthorityPreservingIdentities = sessionAt 2 := rfl
  have rest := run_resets count 2
  rw [iterate_nextEpoch (by decide) enough] at rest
  rw [Session.run] at rest
  simp only [wornSession, Session.run, List.replicate_succ, List.foldl_append, List.foldl_cons,
    List.foldl_nil, first, rest]

/-- The first inventory after a reset keeps the epochs, however many devices it has, and an epoch at
the end of its counter stays when the device disappears. -/
theorem not_every_break_grows :
    (SessionBreaks toString resetSession (.updateDevices (inventoryOf ["A", "B"])) "device_0" ∧
      ¬EpochGrows resetSession.handles
        (resetSession.call toString (.updateDevices (inventoryOf ["A", "B"]))).handles "device_0") ∧
    (SessionBreaks toString (wornSession (2 ^ 64)) (.updateDevices (inventoryOf [])) "device_0" ∧
      ¬EpochGrows (wornSession (2 ^ 64)).handles
        ((wornSession (2 ^ 64)).call toString (.updateDevices (inventoryOf []))).handles "device_0") := by
  constructor
  · constructor
    · exact .inr ⟨_, [⟨"A", "available", none, some "1"⟩, ⟨"B", "available", none, some "1"⟩], 2, rfl, rfl,
        by decide, by decide +kernel⟩
    · apply not_epochGrows_of_same
      decide +kernel
  · have worn : wornSession (2 ^ 64) =
        (sessionAt maxEpoch).call toString (.updateDevices (inventoryOf ["A"])) :=
      wornSession_eq (by decide)
    rw [worn]
    constructor
    · exact .inl (.disappears (by decide +kernel) (by rfl))
    · apply not_epochGrows_of_same
      decide +kernel

end

end EmuChef.App
