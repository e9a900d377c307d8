import EmuChef.App.Handles
import Mathlib.Data.List.Dedup

/-! Device and review handles carry authority for one continuous device session. -/

namespace EmuChef.App

open Retention

namespace SessionHandles

variable {uuid : Nat → String} {handles after : SessionHandles}

def Denotes (handles : SessionHandles) (handle serial : String) : Prop :=
  handles.handleBySerial.get? serial = some handle ∨
    ∃ record, handles.devicesByHandle.get? handle = some record ∧ record.serial = serial

def EpochGrows (before after : SessionHandles) (handle : String) : Prop :=
  ∃ epoch larger, before.epoch? handle = some epoch ∧ after.epoch? handle = some larger ∧
    epoch < larger

def ReturnsFacts (handles : SessionHandles) (handle : String) (value : Json) : Prop :=
  handles.facts handle = .ok value ∨ (∃ epoch, handles.factsWithEpoch handle = .ok (value, epoch)) ∨
    (∃ record, handles.device handle = .ok record ∧ record.facts = some value) ∨
      ∃ record ∈ handles.qualificationDevices, record.handle = handle ∧ record.facts = some value

section

theorem mem_tombstones_push {handle code : String} {tombstone : ReviewTombstone}
    (member : tombstone ∈ (handles.pushTombstone handle code).tombstones) :
    tombstone ∈ handles.tombstones ∨ tombstone = ⟨handle, code⟩ := by
  simp only [pushTombstone, List.mem_append, List.mem_singleton] at member
  rcases member with kept | added
  · split at kept
    · exact .inl (List.mem_of_mem_tail kept)
    · exact .inl kept
  · exact .inr added

def SameDevices (before after : SessionHandles) : Prop :=
  after = { before with
    reviews := after.reviews, reviewOrder := after.reviewOrder, tombstones := after.tombstones }

theorem SameDevices.refl (handles : SessionHandles) : SameDevices handles handles := rfl

theorem SameDevices.trans {first second third : SessionHandles} (early : SameDevices first second)
    (late : SameDevices second third) : SameDevices first third := by
  rw [SameDevices] at early late ⊢
  rw [late, early]

theorem sameDevices_removeReview (handles : SessionHandles) (handle code : String) :
    SameDevices handles (handles.removeReview handle code) := rfl

theorem sameDevices_removeReviews (handles : SessionHandles) (code : String) (removed : List String) :
    SameDevices handles (handles.removeReviews code removed) := by
  induction removed generalizing handles with
  | nil => exact .refl handles
  | cons handle removed ih => exact (sameDevices_removeReview handles handle code).trans (ih _)

theorem sameDevices_evictReviews {order : List String}
    (evicted : handles.evictReviews order = some after) : SameDevices handles after := by
  induction order generalizing handles with
  | nil =>
      rw [evictReviews] at evicted
      split at evicted
      · exact Option.some.inj evicted ▸ rfl
      · exact nomatch evicted
  | cons oldest rest ih =>
      rw [evictReviews] at evicted
      split at evicted
      · exact Option.some.inj evicted ▸ rfl
      · have popped : SameDevices handles
            (pushTombstone
              { handles with reviews := handles.reviews.erase oldest, reviewOrder := rest }
              oldest "review_stale") := rfl
        exact popped.trans (ih evicted)

variable (same : SameDevices handles after)

include same in
theorem SameDevices.epoch? (handle : String) : after.epoch? handle = handles.epoch? handle := by
  rw [same]
  rfl

include same in
theorem SameDevices.context (handle : String) :
    after.qualificationContext handle = handles.qualificationContext handle := by
  rw [same]
  rfl

include same in
theorem SameDevices.devices : after.devicesByHandle = handles.devicesByHandle := by rw [same]

include same in
theorem SameDevices.drawn_eq : after.drawn = handles.drawn := by rw [same]

include same in
theorem SameDevices.denotes {handle serial : String} :
    Denotes after handle serial ↔ Denotes handles handle serial := by
  rw [same]
  rfl

end

theorem get?_removeReview {handle code other : String} :
    (handles.removeReview handle code).reviews.get? other =
      if other = handle then none else handles.reviews.get? other :=
  OrderedMap.get?_erase

theorem get?_removeReviews {code : String} {removed : List String} {other : String} :
    (handles.removeReviews code removed).reviews.get? other =
      if other ∈ removed then none else handles.reviews.get? other := by
  induction removed generalizing handles with
  | nil => simp [removeReviews]
  | cons handle removed ih =>
      have rest := @ih (handles.removeReview handle code)
      rw [get?_removeReview] at rest
      rw [removeReviews, List.foldl_cons]
      rw [removeReviews] at rest
      rw [rest]
      by_cases here : other = handle
      · simp [here]
      · simp [here]

variable {handle : String}

theorem mem_reviewsWhere {predicate : ReviewedPlanSnapshot → Bool} :
    handle ∈ handles.reviewsWhere predicate ↔
      ∃ review, handles.reviews.get? handle = some review ∧ predicate review = true := by
  simp only [reviewsWhere, List.mem_map, List.mem_filter, OrderedMap.get?_eq_some, Prod.exists]
  constructor
  · rintro ⟨held, review, ⟨member, holds⟩, rfl⟩
    exact ⟨review, member, holds⟩
  · rintro ⟨review, member, holds⟩
    exact ⟨handle, review, ⟨member, holds⟩, rfl⟩

variable {review : ReviewedPlanSnapshot}

theorem get?_removeReviewsWhere {code : String} {predicate : ReviewedPlanSnapshot → Bool} :
    (handles.removeReviews code (handles.reviewsWhere predicate)).reviews.get? handle = some review ↔
      handles.reviews.get? handle = some review ∧ predicate review = false := by
  rw [get?_removeReviews]
  by_cases removed : handle ∈ handles.reviewsWhere predicate
  · obtain ⟨found, held, holds⟩ := mem_reviewsWhere.mp removed
    rw [if_pos removed]
    constructor
    · exact nofun
    · rintro ⟨same, fails⟩
      cases Option.some.inj (held.symm.trans same)
      rw [holds] at fails
      exact nomatch fails
  · rw [if_neg removed]
    constructor
    · intro held
      refine ⟨held, ?_⟩
      by_contra holds
      exact removed (mem_reviewsWhere.mpr ⟨review, held, by simpa using holds⟩)
    · exact And.left

structure ReviewsKept (uuid : Nat → String) (handles : SessionHandles) : Prop where
  inStep : InStep handles.reviews handles.reviewOrder
  bounded : handles.reviews.keys.length ≤ maxReviews
  issued : ∀ handle ∈ handles.reviews.keys, Issued (reviewName uuid) handles.drawn handle
  retired : ∀ tombstone ∈ handles.tombstones,
    Issued (reviewName uuid) handles.drawn tombstone.handle ∧ tombstone.handle ∉ handles.reviews.keys

theorem length_keys_erase_le (handles : SessionHandles) (handle : String) :
    (handles.reviews.erase handle).keys.length ≤ handles.reviews.keys.length := by
  simp only [OrderedMap.keys, OrderedMap.erase, List.length_map]
  exact List.length_filter_le _ _

theorem ReviewsKept.retire (kept : ReviewsKept uuid handles) {handle code : String}
    {order : List String} (known : Issued (reviewName uuid) handles.drawn handle)
    (inStep : InStep (handles.reviews.erase handle) order) :
    ReviewsKept uuid
      (pushTombstone { handles with reviews := handles.reviews.erase handle, reviewOrder := order }
        handle code) where
  inStep := inStep
  bounded := (length_keys_erase_le handles handle).trans kept.bounded
  issued := fun other member => kept.issued other (mem_keys_erase.mp member).1
  retired := by
    intro tombstone member
    rcases mem_tombstones_push member with old | rfl
    · obtain ⟨issued, absent⟩ := kept.retired tombstone old
      exact ⟨issued, fun inside => absent (mem_keys_erase.mp inside).1⟩
    · exact ⟨known, fun inside => (mem_keys_erase.mp inside).2 rfl⟩

theorem ReviewsKept.removeReview (kept : ReviewsKept uuid handles) (code : String)
    (known : Issued (reviewName uuid) handles.drawn handle) :
    ReviewsKept uuid (handles.removeReview handle code) :=
  kept.retire known (kept.inStep.remove handle)

theorem ReviewsKept.removeReviews (kept : ReviewsKept uuid handles) (code : String)
    {removed : List String}
    (known : ∀ handle ∈ removed, Issued (reviewName uuid) handles.drawn handle) :
    ReviewsKept uuid (handles.removeReviews code removed) := by
  induction removed generalizing handles with
  | nil => exact kept
  | cons handle removed ih =>
      apply ih (kept.removeReview code (known handle (List.mem_cons_self ..)))
      intro other member
      exact known other (List.mem_cons_of_mem _ member)

theorem ReviewsKept.removeReviewsWhere (kept : ReviewsKept uuid handles) (code : String)
    (predicate : ReviewedPlanSnapshot → Bool) :
    ReviewsKept uuid (handles.removeReviews code (handles.reviewsWhere predicate)) := by
  apply kept.removeReviews code
  intro handle member
  obtain ⟨review, held, -⟩ := mem_reviewsWhere.mp member
  exact kept.issued handle (OrderedMap.get?_isSome.mp (by simp [held]))

theorem ReviewsKept.of_same (kept : ReviewsKept uuid handles) (reviews : after.reviews = handles.reviews)
    (order : after.reviewOrder = handles.reviewOrder) (tombstones : after.tombstones = handles.tombstones)
    (drawn : handles.drawn ≤ after.drawn) : ReviewsKept uuid after where
  inStep := by rw [reviews, order]; exact kept.inStep
  bounded := by rw [reviews]; exact kept.bounded
  issued := by
    intro handle member
    rw [reviews] at member
    exact (kept.issued handle member).mono drawn
  retired := by
    intro tombstone member
    rw [tombstones] at member
    rw [reviews]
    exact ⟨(kept.retired tombstone member).1.mono drawn, (kept.retired tombstone member).2⟩

theorem evictReviews_some (kept : ReviewsKept uuid handles) :
    ∃ after, handles.evictReviews handles.reviewOrder = some after ∧ ReviewsKept uuid after ∧
      after.reviews.keys.length < maxReviews ∧
        ∀ handle review, after.reviews.get? handle = some review →
          handles.reviews.get? handle = some review := by
  generalize queue : handles.reviewOrder = order
  induction order generalizing handles with
  | nil =>
      have empty : handles.reviews.keys.length = 0 := by
        rw [← kept.inStep.perm.length_eq, queue]
        rfl
      have room : handles.reviews.keys.length < maxReviews := by
        rw [empty]
        decide
      rw [evictReviews, if_pos room]
      exact ⟨_, rfl, kept.of_same rfl queue.symm rfl (Nat.le_refl _), room, fun _ _ held => held⟩
  | cons oldest rest ih =>
      rw [evictReviews]
      by_cases room : handles.reviews.keys.length < maxReviews
      · rw [if_pos room]
        exact ⟨_, rfl, kept.of_same rfl queue.symm rfl (Nat.le_refl _), room, fun _ _ held => held⟩
      · rw [if_neg room]
        have listed : oldest ∈ handles.reviews.keys := by
          rw [← kept.inStep.same, queue]
          exact List.mem_cons_self ..
        have shorter : InStep (handles.reviews.erase oldest) rest := (queue ▸ kept.inStep).evict
        have kept_rest := @ReviewsKept.retire uuid handles kept oldest "review_stale" rest
          (kept.issued oldest listed) shorter
        obtain ⟨after, evicted, kept_after, small, survives⟩ := ih kept_rest rfl
        refine ⟨after, evicted, kept_after, small, ?_⟩
        intro handle review held
        have remaining := survives handle review held
        have found : (handles.reviews.erase oldest).get? handle = some review := remaining
        rw [OrderedMap.get?_erase] at found
        split at found
        · exact nomatch found
        · exact found

theorem nextEpoch_le (epoch : Nat) : nextEpoch epoch ≤ maxEpoch := by
  unfold nextEpoch maxEpoch
  omega

theorem le_nextEpoch {epoch : Nat} (bounded : epoch ≤ maxEpoch) : epoch ≤ nextEpoch epoch := by
  unfold nextEpoch
  omega

theorem lt_nextEpoch {epoch : Nat} (bounded : epoch ≤ maxEpoch) :
    epoch < nextEpoch epoch ∨ epoch = maxEpoch := by
  unfold nextEpoch
  omega

def EpochsBounded (handles : SessionHandles) : Prop :=
  ∀ handle epoch, handles.epoch? handle = some epoch → epoch ≤ maxEpoch

/-- Authority that can only be lost: nothing is recorded, and a handle whose epoch grows keeps
neither a context nor a review. -/
structure Erodes (before after : SessionHandles) : Prop where
  contexts : ∀ handle context, after.qualificationContext handle = some context →
    before.qualificationContext handle = some context
  reviews : ∀ handle review, after.reviews.get? handle = some review →
    before.reviews.get? handle = some review
  epochs : ∀ handle epoch, before.epoch? handle = some epoch →
    ∃ later, after.epoch? handle = some later ∧ epoch ≤ later
  revoked : ∀ handle, EpochGrows before after handle →
    after.qualificationContext handle = none ∧
      ∀ name review, after.reviews.get? name = some review → review.deviceHandle ≠ handle

theorem not_epochGrows_of_same (same : after.epoch? handle = handles.epoch? handle) :
    ¬EpochGrows handles after handle := by
  rintro ⟨epoch, larger, held, later, grows⟩
  rw [same, held] at later
  cases later
  omega

theorem Erodes.refl (handles : SessionHandles) : Erodes handles handles where
  contexts := fun _ _ held => held
  reviews := fun _ _ held => held
  epochs := fun _ epoch held => ⟨epoch, held, Nat.le_refl _⟩
  revoked := fun _ grows => absurd grows (not_epochGrows_of_same rfl)

variable {first second third : SessionHandles}

theorem Erodes.trans (early : Erodes first second)
    (late : Erodes second third) : Erodes first third where
  contexts := fun handle context held => early.contexts handle context (late.contexts handle context held)
  reviews := fun handle review held => early.reviews handle review (late.reviews handle review held)
  epochs := by
    intro handle epoch held
    obtain ⟨middle, there, le_middle⟩ := early.epochs handle epoch held
    obtain ⟨last, final, le_last⟩ := late.epochs handle middle there
    exact ⟨last, final, by omega⟩
  revoked := by
    rintro handle ⟨epoch, larger, held, final, grows⟩
    obtain ⟨middle, there, le_middle⟩ := early.epochs handle epoch held
    by_cases still : middle = epoch
    · subst still
      exact late.revoked handle ⟨middle, larger, there, final, grows⟩
    · obtain ⟨no_context, no_review⟩ :=
        early.revoked handle ⟨epoch, middle, held, there, by omega⟩
      constructor
      · refine Option.eq_none_iff_forall_ne_some.mpr fun context held => ?_
        exact nomatch no_context.symm.trans (late.contexts handle context held)
      · intro name review held
        exact no_review name review (late.reviews name review held)

theorem EpochGrows.later (grows : EpochGrows first second handle) (late : Erodes second third) :
    EpochGrows first third handle := by
  obtain ⟨epoch, middle, held, there, smaller⟩ := grows
  obtain ⟨last, final, le_last⟩ := late.epochs handle middle there
  exact ⟨epoch, last, held, final, by omega⟩

theorem Erodes.grows {epoch middle : Nat} (early : Erodes first second)
    (held : first.epoch? handle = some epoch) (there : second.epoch? handle = some middle)
    (late : Erodes second third) (grows : EpochGrows second third handle ∨ middle = maxEpoch) :
    EpochGrows first third handle ∨ epoch = maxEpoch := by
  obtain ⟨second_epoch, same, le_middle⟩ := early.epochs handle epoch held
  rw [there] at same
  cases same
  rcases grows with ⟨before, larger, known, final, smaller⟩ | spent
  · rw [there] at known
    cases known
    exact .inl ⟨epoch, larger, held, final, by omega⟩
  · by_cases same : epoch = maxEpoch
    · exact .inr same
    · obtain ⟨last, final, le_last⟩ := late.epochs handle middle there
      exact .inl ⟨epoch, last, held, final, by omega⟩

theorem SameDevices.erodes (same : SameDevices handles after)
    (fewer : ∀ handle review, after.reviews.get? handle = some review →
      handles.reviews.get? handle = some review) : Erodes handles after where
  contexts := fun handle _ held => (same.context handle).symm.trans held
  reviews := fewer
  epochs := fun handle epoch held => ⟨epoch, (same.epoch? handle).trans held, Nat.le_refl _⟩
  revoked := fun handle grows => absurd grows (not_epochGrows_of_same (same.epoch? handle))

theorem erodes_removeReviews (code : String) (removed : List String) :
    Erodes handles (handles.removeReviews code removed) := by
  apply (sameDevices_removeReviews handles code removed).erodes
  intro handle review held
  rw [get?_removeReviews] at held
  split at held
  · exact nomatch held
  · exact held

theorem sameDevices_invalidateReviewsForDevice (deviceHandle code : String) :
    SameDevices handles (handles.invalidateReviewsForDevice deviceHandle code) :=
  sameDevices_removeReviews ..

theorem get?_invalidateReviewsForDevice {deviceHandle code name : String} :
    (handles.invalidateReviewsForDevice deviceHandle code).reviews.get? name = some review ↔
      handles.reviews.get? name = some review ∧ review.deviceHandle ≠ deviceHandle := by
  rw [invalidateReviewsForDevice, invalidateReviewsForDeviceIf, get?_removeReviewsWhere]
  simp

theorem epoch?_advanceEpoch {handle other : String} :
    (handles.advanceEpoch handle).epoch? other =
      if other = handle then some (nextEpoch ((handles.epoch? handle).getD 1))
      else handles.epoch? other :=
  OrderedMap.get?_insert

theorem epoch?_loseContinuity {handle code other : String} :
    (handles.loseContinuity handle code).epoch? other =
      if other = handle then some (nextEpoch ((handles.epoch? handle).getD 1))
      else handles.epoch? other := by
  rw [loseContinuity, (sameDevices_invalidateReviewsForDevice handle code).epoch?]
  exact epoch?_advanceEpoch

theorem context_loseContinuity {handle code other : String} :
    (handles.loseContinuity handle code).qualificationContext other =
      if other = handle then none else handles.qualificationContext other := by
  rw [loseContinuity, (sameDevices_invalidateReviewsForDevice handle code).context]
  exact OrderedMap.get?_erase

theorem get?_reviews_loseContinuity {handle code name : String} :
    (handles.loseContinuity handle code).reviews.get? name = some review ↔
      handles.reviews.get? name = some review ∧ review.deviceHandle ≠ handle :=
  get?_invalidateReviewsForDevice

theorem devices_loseContinuity (handle code : String) :
    (handles.loseContinuity handle code).devicesByHandle = handles.devicesByHandle :=
  (sameDevices_invalidateReviewsForDevice handle code).devices

theorem EpochsBounded.loseContinuity (bounded : EpochsBounded handles) (handle code : String) :
    EpochsBounded (handles.loseContinuity handle code) := by
  intro other epoch held
  rw [epoch?_loseContinuity] at held
  split at held
  · cases held
    exact nextEpoch_le _
  · exact bounded other epoch held

theorem erodes_loseContinuity (bounded : EpochsBounded handles) (handle code : String) :
    Erodes handles (handles.loseContinuity handle code) where
  contexts := by
    intro other context held
    rw [context_loseContinuity] at held
    split at held
    · exact nomatch held
    · exact held
  reviews := fun name review held => (get?_reviews_loseContinuity.mp held).1
  epochs := by
    intro other epoch held
    rw [epoch?_loseContinuity]
    by_cases same : other = handle
    · subst same
      rw [if_pos rfl, held]
      exact ⟨_, rfl, le_nextEpoch (bounded other epoch held)⟩
    · rw [if_neg same]
      exact ⟨epoch, held, Nat.le_refl _⟩
  revoked := by
    intro other grows
    by_cases same : other = handle
    · subst same
      constructor
      · rw [context_loseContinuity, if_pos rfl]
      · intro name review held
        exact (get?_reviews_loseContinuity.mp held).2
    · refine absurd grows (not_epochGrows_of_same ?_)
      rw [epoch?_loseContinuity, if_neg same]

theorem epochGrows_loseContinuity (bounded : EpochsBounded handles) {handle code : String} {epoch : Nat}
    (held : handles.epoch? handle = some epoch) :
    EpochGrows handles (handles.loseContinuity handle code) handle ∨ epoch = maxEpoch := by
  rcases lt_nextEpoch (bounded handle epoch held) with grows | spent
  · refine .inl ⟨epoch, nextEpoch epoch, held, ?_, grows⟩
    rw [epoch?_loseContinuity, if_pos rfl, held]
    rfl
  · exact .inr spent

def loseAll (code : String) (lost : List String) (handles : SessionHandles) : SessionHandles :=
  lost.foldl (fun handles handle => handles.loseContinuity handle code) handles

theorem EpochsBounded.loseAll (bounded : EpochsBounded handles) (code : String) (lost : List String) :
    EpochsBounded (handles.loseAll code lost) :=
  foldl_kept (fun _ handle bounded => bounded.loseContinuity handle code) bounded lost

theorem erodes_loseAll (bounded : EpochsBounded handles) (code : String) (lost : List String) :
    Erodes handles (loseAll code lost handles) :=
  @foldl_related SessionHandles String (fun handles handle => handles.loseContinuity handle code)
    EpochsBounded Erodes
    Erodes.refl (fun _ _ _ => Erodes.trans)
    (fun _ handle bounded => EpochsBounded.loseContinuity bounded handle code)
    (fun _ handle bounded => erodes_loseContinuity bounded handle code) handles bounded lost

theorem devices_loseAll (code : String) (lost : List String) :
    (loseAll code lost handles).devicesByHandle = handles.devicesByHandle := by
  induction lost generalizing handles with
  | nil => rfl
  | cons handle lost ih => exact ih.trans (devices_loseContinuity handle code)

theorem epoch?_loseAll_other {code handle : String} {lost : List String} (unlisted : handle ∉ lost) :
    (loseAll code lost handles).epoch? handle = handles.epoch? handle := by
  induction lost generalizing handles with
  | nil => rfl
  | cons first lost ih =>
      rw [List.mem_cons, not_or] at unlisted
      have rest : (loseAll code lost (handles.loseContinuity first code)).epoch? handle =
          (handles.loseContinuity first code).epoch? handle := ih unlisted.2
      rw [epoch?_loseContinuity, if_neg unlisted.1] at rest
      exact rest

theorem epochGrows_loseAll (bounded : EpochsBounded handles) {code handle : String} {lost : List String}
    {epoch : Nat} (listed : handle ∈ lost) (held : handles.epoch? handle = some epoch) :
    EpochGrows handles (loseAll code lost handles) handle ∨ epoch = maxEpoch := by
  induction lost generalizing handles epoch with
  | nil => exact absurd listed List.not_mem_nil
  | cons first lost ih =>
      have bounded_next := bounded.loseContinuity first code
      have rest := erodes_loseAll bounded_next code lost
      have early := erodes_loseContinuity bounded first code
      rcases List.mem_cons.mp listed with rfl | later
      · rcases @epochGrows_loseContinuity _ bounded _ code _ held with grows | spent
        · exact .inl (grows.later rest)
        · exact .inr spent
      · obtain ⟨middle, there, -⟩ := early.epochs handle epoch held
        exact early.grows held there rest (ih bounded_next later there)

def SameAuthority (before after : SessionHandles) : Prop :=
  after = { before with
    handleBySerial := after.handleBySerial, identityOrder := after.identityOrder, drawn := after.drawn }

theorem evictIdentities_frame (handles : SessionHandles) (order : List String) :
    SameAuthority handles (handles.evictIdentities order) ∧
      (handles.evictIdentities order).drawn = handles.drawn ∧
        ∀ serial handle, (handles.evictIdentities order).handleBySerial.get? serial = some handle →
          handles.handleBySerial.get? serial = some handle := by
  induction order generalizing handles with
  | nil => exact ⟨rfl, rfl, fun _ _ held => held⟩
  | cons oldest rest ih =>
      rw [evictIdentities]
      split
      · exact ⟨rfl, rfl, fun _ _ held => held⟩
      · obtain ⟨same, drawn, fewer⟩ :=
          ih { handles with handleBySerial := handles.handleBySerial.erase oldest }
        refine ⟨?_, drawn, ?_⟩
        · rw [SameAuthority] at same ⊢
          rw [same]
        · intro serial handle held
          have remaining := fewer serial handle held
          rw [OrderedMap.get?_erase] at remaining
          split at remaining
          · exact nomatch remaining
          · exact remaining

theorem sameAuthority_handleForSerial (uuid : Nat → String) (handles : SessionHandles) (serial : String) :
    SameAuthority handles (handles.handleForSerial uuid serial).2 := by
  rw [handleForSerial]
  split
  · rfl
  · have same := (evictIdentities_frame handles handles.identityOrder).1
    rw [SameAuthority] at same ⊢
    rw [same]

theorem drawn_handleForSerial (uuid : Nat → String) (handles : SessionHandles) (serial : String) :
    handles.drawn ≤ (handles.handleForSerial uuid serial).2.drawn := by
  rw [handleForSerial]
  split
  · exact Nat.le_refl _
  · have drawn := (evictIdentities_frame handles handles.identityOrder).2.1
    simp only [drawn]
    omega

structure Owned (uuid : Nat → String) (handles : SessionHandles) (owner : String → Option String) :
    Prop where
  denoted : ∀ handle serial, Denotes handles handle serial → owner handle = some serial
  issued : ∀ handle serial, owner handle = some serial →
    Issued (deviceName uuid) handles.drawn handle

def Extends (owner later : String → Option String) : Prop :=
  ∀ handle serial, owner handle = some serial → later handle = some serial

theorem Owned.mono {owner : String → Option String} (owned : Owned uuid handles owner)
    (fewer : ∀ handle serial, Denotes after handle serial → Denotes handles handle serial)
    (drawn : handles.drawn ≤ after.drawn) : Owned uuid after owner where
  denoted := fun handle serial denotes => owned.denoted handle serial (fewer handle serial denotes)
  issued := fun handle serial known => (owned.issued handle serial known).mono drawn

theorem deviceName_injective (distinct : Function.Injective uuid) :
    Function.Injective (deviceName uuid) := by
  intro first second same
  exact distinct ((String.append_right_inj _).mp same)

theorem owned_handleForSerial (distinct : Function.Injective uuid) {owner : String → Option String}
    (owned : Owned uuid handles owner) (serial : String) :
    ∃ later, Extends owner later ∧ Owned uuid (handles.handleForSerial uuid serial).2 later ∧
      later (handles.handleForSerial uuid serial).1 = some serial := by
  cases known : handles.handleBySerial.get? serial with
  | some handle =>
      rw [handleForSerial, known]
      exact ⟨owner, fun _ _ same => same, owned.mono (fun _ _ denotes => denotes) (Nat.le_refl _),
        owned.denoted handle serial (.inl known)⟩
  | none =>
      rw [handleForSerial, known]
      obtain ⟨same, drawn, fewer⟩ := evictIdentities_frame handles handles.identityOrder
      have devices : (handles.evictIdentities handles.identityOrder).devicesByHandle =
          handles.devicesByHandle := by rw [same]
      simp only [drawn]
      have fresh : owner (deviceName uuid handles.drawn) = none := by
        refine Option.eq_none_iff_forall_ne_some.mpr fun other held => ?_
        exact not_issued_next (deviceName_injective distinct) (owned.issued _ other held)
      refine ⟨Function.update owner (deviceName uuid handles.drawn) (some serial), ?_, ⟨?_, ?_⟩, ?_⟩
      · intro handle other held
        rw [Function.update_of_ne]
        · exact held
        · rintro rfl
          rw [fresh] at held
          exact nomatch held
      · intro handle other denotes
        by_cases new : handle = deviceName uuid handles.drawn
        · subst new
          rw [Function.update_self]
          rcases denotes with here | ⟨record, held, rfl⟩
          · simp only [OrderedMap.get?_insert] at here
            split at here
            next same => rw [same]
            next =>
              exact nomatch fresh.symm.trans (owned.denoted _ other (.inl (fewer other _ here)))
          · simp only [devices] at held
            exact nomatch fresh.symm.trans (owned.denoted _ _ (.inr ⟨record, held, rfl⟩))
        · rw [Function.update_of_ne new]
          rcases denotes with here | ⟨record, held, rfl⟩
          · simp only [OrderedMap.get?_insert] at here
            split at here
            next => exact absurd (Option.some.inj here).symm new
            next => exact owned.denoted handle other (.inl (fewer other _ here))
          · simp only [devices] at held
            exact owned.denoted handle _ (.inr ⟨record, held, rfl⟩)
      · intro handle other held
        by_cases new : handle = deviceName uuid handles.drawn
        · subst new
          exact issued_next
        · rw [Function.update_of_ne new] at held
          exact (owned.issued handle other held).mono (Nat.le_succ _)
      · exact Function.update_self ..

theorem SameAuthority.erodes (same : SameAuthority handles after) : Erodes handles after := by
  rw [same]
  exact ⟨fun _ _ held => held, fun _ _ held => held, fun _ epoch held => ⟨epoch, held, Nat.le_refl _⟩,
    fun _ grows => absurd grows (not_epochGrows_of_same rfl)⟩

theorem SameAuthority.epoch? (same : SameAuthority handles after) (handle : String) :
    after.epoch? handle = handles.epoch? handle := by
  rw [same]
  rfl

theorem epoch?_enterEpoch {handle other : String} :
    (handles.enterEpoch handle).epoch? other =
      if other = handle then some ((handles.epoch? handle).getD 1) else handles.epoch? other :=
  OrderedMap.get?_insert

theorem epoch?_enterEpoch_of_some {handle other : String} {epoch : Nat}
    (held : handles.epoch? other = some epoch) : (handles.enterEpoch handle).epoch? other = some epoch := by
  rw [epoch?_enterEpoch]
  split
  next same =>
    subst same
    rw [held]
    rfl
  next => exact held

theorem erodes_enterEpoch (handle : String) : Erodes handles (handles.enterEpoch handle) where
  contexts := fun _ _ held => held
  reviews := fun _ _ held => held
  epochs := fun _ epoch held => ⟨epoch, epoch?_enterEpoch_of_some held, Nat.le_refl _⟩
  revoked := by
    rintro other ⟨epoch, larger, held, later, grows⟩
    rw [epoch?_enterEpoch_of_some held] at later
    cases later
    omega

theorem EpochsBounded.enterEpoch (bounded : EpochsBounded handles) (handle : String) :
    EpochsBounded (handles.enterEpoch handle) := by
  intro other epoch held
  rw [epoch?_enterEpoch] at held
  split at held
  · cases old : handles.epoch? handle with
    | none =>
        rw [old] at held
        cases held
        decide
    | some known =>
        rw [old] at held
        cases held
        exact bounded handle known old
  · exact bounded other epoch held

theorem ReviewsKept.loseContinuity (kept : ReviewsKept uuid handles) (handle code : String) :
    ReviewsKept uuid (handles.loseContinuity handle code) := by
  have plain : ReviewsKept uuid
      { handles.advanceEpoch handle with
        qualificationContextByHandle := handles.qualificationContextByHandle.erase handle } :=
    kept.of_same rfl rfl rfl (Nat.le_refl _)
  exact plain.removeReviewsWhere code _

theorem ReviewsKept.loseAll (kept : ReviewsKept uuid handles) (code : String) (lost : List String) :
    ReviewsKept uuid (handles.loseAll code lost) :=
  @foldl_kept SessionHandles String (fun handles handle => handles.loseContinuity handle code)
    (ReviewsKept uuid) (fun _ handle kept => ReviewsKept.loseContinuity kept handle code) handles kept lost

theorem denotes_loseContinuity {handle code other serial : String} :
    Denotes (handles.loseContinuity handle code) other serial ↔ Denotes handles other serial := by
  rw [loseContinuity, (sameDevices_invalidateReviewsForDevice handle code).denotes]
  rfl

theorem drawn_loseContinuity (handle code : String) :
    (handles.loseContinuity handle code).drawn = handles.drawn :=
  (sameDevices_invalidateReviewsForDevice handle code).drawn_eq

structure Admitted (uuid : Nat → String) (forced : List String) (device : ParsedInventoryDevice)
    (before after : Reconciling) (handle : String) (record : DeviceRecord) : Prop where
  present : after.present = before.present.insert handle record
  erodes : Erodes before.handles after.handles
  devices : after.handles.devicesByHandle = before.handles.devicesByHandle
  drawn : before.handles.drawn ≤ after.handles.drawn
  others : ∀ other, other ≠ handle → after.handles.epoch? other = before.handles.epoch? other
  epoch : after.handles.epoch? handle = some record.sessionEpoch
  named : record.handle = handle
  serial : record.serial = device.serial
  described : record.state = device.state ∧ record.model = device.model ∧
    record.transportId = device.transportId
  facts : ∀ value, record.facts = some value → ∃ previous,
    before.handles.devicesByHandle.get? handle = some previous ∧
      previous.sessionEpoch = record.sessionEpoch ∧ previous.facts = some value
  continuity : ∀ previous epoch, before.handles.devicesByHandle.get? handle = some previous →
    continuityLost previous device = true → before.handles.epoch? handle = some epoch →
      handle ∈ forced ∨ EpochGrows before.handles after.handles handle ∨ epoch = maxEpoch
  bounded : EpochsBounded after.handles
  reviews : ReviewsKept uuid after.handles
  owned : ∀ owner, Owned uuid before.handles owner →
    ∃ later, Extends owner later ∧ Owned uuid after.handles later ∧ later handle = some device.serial

theorem reconcileDevice_admits (distinct : Function.Injective uuid) (forced : List String)
    (device : ParsedInventoryDevice) {loop : Reconciling} (bounded : EpochsBounded loop.handles)
    (kept : ReviewsKept uuid loop.handles) :
    ∃ handle record, Admitted uuid forced device loop (reconcileDevice uuid forced loop device)
      handle record := by
  obtain ⟨named, naming⟩ :
      ∃ named, named = loop.handles.handleForSerial uuid device.serial := ⟨_, rfl⟩
  have same : SameAuthority loop.handles named.2 :=
    naming ▸ sameAuthority_handleForSerial uuid loop.handles device.serial
  have drawn : loop.handles.drawn ≤ named.2.drawn :=
    naming ▸ drawn_handleForSerial uuid loop.handles device.serial
  have devices : named.2.devicesByHandle = loop.handles.devicesByHandle := by rw [same]
  have bounded_named : EpochsBounded named.2 := by
    intro other epoch held
    exact bounded other epoch (same.epoch? other ▸ held)
  have bounded_entered := bounded_named.enterEpoch named.1
  have kept_entered : ReviewsKept uuid (named.2.enterEpoch named.1) := by
    refine kept.of_same ?_ ?_ ?_ drawn
    all_goals
      rw [same]
      rfl
  have erodes_entered : Erodes loop.handles (named.2.enterEpoch named.1) :=
    same.erodes.trans (erodes_enterEpoch named.1)
  have owned_entered : ∀ owner, Owned uuid loop.handles owner → ∃ later, Extends owner later ∧
      Owned uuid (named.2.enterEpoch named.1) later ∧ later named.1 = some device.serial := by
    intro owner owned
    obtain ⟨later, extends_owner, owned_later, here⟩ :=
      owned_handleForSerial distinct owned device.serial
    rw [← naming] at owned_later here
    exact ⟨later, extends_owner, owned_later.mono (fun _ _ denotes => denotes) (Nat.le_refl _), here⟩
  have known : ∀ epoch, loop.handles.epoch? named.1 = some epoch →
      (named.2.enterEpoch named.1).epoch? named.1 = some epoch := by
    intro epoch held
    exact epoch?_enterEpoch_of_some ((same.epoch? named.1).trans held)
  obtain ⟨entered, entering⟩ : ∃ entered, entered = named.2.enterEpoch named.1 := ⟨_, rfl⟩
  rw [← entering] at bounded_entered kept_entered erodes_entered owned_entered known
  have devices_entered : entered.devicesByHandle = loop.handles.devicesByHandle := by
    rw [entering]
    exact devices
  have others_entered : ∀ other, other ≠ named.1 → entered.epoch? other = loop.handles.epoch? other := by
    intro other different
    rw [entering, epoch?_enterEpoch, if_neg different, same.epoch?]
  have first : ∃ epoch, entered.epoch? named.1 = some epoch := by
    rw [entering, epoch?_enterEpoch, if_pos rfl]
    exact ⟨_, rfl⟩
  obtain ⟨lost, losing⟩ : ∃ lost, lost = (((entered.devicesByHandle.get? named.1).any fun previous =>
      continuityLost previous device) && named.1 ∉ forced : Bool) := ⟨_, rfl⟩
  obtain ⟨final, finishing⟩ : ∃ final, final =
      if lost then entered.loseContinuity named.1 "device_qualification_changed" else entered := ⟨_, rfl⟩
  have settled : reconcileDevice uuid forced loop device =
      ⟨final, loop.present.insert named.1
        ⟨named.1, device.serial, device.state, device.model, device.transportId,
          (final.epoch? named.1).getD 1,
          ((entered.devicesByHandle.get? named.1).filter fun record =>
            record.sessionEpoch = (final.epoch? named.1).getD 1).bind (·.facts),
          ((entered.devicesByHandle.get? named.1).filter fun record =>
            record.sessionEpoch = (final.epoch? named.1).getD 1).bind (·.factsSessionEpoch)⟩⟩ := by
    rw [finishing, losing, entering, naming]
    rfl
  have erodes_final : Erodes entered final := by
    rw [finishing]
    split
    · exact erodes_loseContinuity bounded_entered _ _
    · exact .refl entered
  have devices_final : final.devicesByHandle = loop.handles.devicesByHandle := by
    rw [finishing, ← devices_entered]
    split
    · exact devices_loseContinuity _ _
    · rfl
  obtain ⟨begun, begins⟩ := first
  obtain ⟨current, held, -⟩ := erodes_final.epochs named.1 begun begins
  rw [settled, held]
  have drawn_final : loop.handles.drawn ≤ final.drawn := by
    have drawn_entered : entered.drawn = named.2.drawn := by
      rw [entering]
      rfl
    rw [finishing]
    split
    · rw [drawn_loseContinuity, drawn_entered]
      exact drawn
    · rw [drawn_entered]
      exact drawn
  refine ⟨named.1, _, ⟨rfl, erodes_entered.trans erodes_final, devices_final, drawn_final, ?_, held, rfl, rfl,
    ⟨rfl, rfl, rfl⟩, ?_, ?_, ?_, ?_, ?_⟩⟩
  · intro other different
    rw [← others_entered other different]
    simp only [finishing]
    split
    · rw [epoch?_loseContinuity, if_neg different]
    · rfl
  · intro value carried
    rw [devices_entered] at carried
    cases old : loop.handles.devicesByHandle.get? named.1 with
    | none => simp [old] at carried
    | some previous =>
        simp only [old, Option.filter_some, Option.getD_some] at carried
        by_cases continued : previous.sessionEpoch = current
        · simp only [continued, decide_true, if_true, Option.bind_some] at carried
          exact ⟨previous, rfl, continued, carried⟩
        · simp [continued] at carried
  · intro previous epoch old broken early
    by_cases inside : named.1 ∈ forced
    · exact .inl inside
    · right
      have lost_true : lost = true := by
        rw [losing, devices_entered, old]
        simp [broken, inside]
      rcases @epochGrows_loseContinuity _ bounded_entered named.1 "device_qualification_changed" epoch
        (known epoch early) with grows | spent
      · left
        obtain ⟨before, larger, there, after, grows⟩ := grows
        rw [known epoch early] at there
        cases there
        refine ⟨epoch, larger, early, ?_, grows⟩
        simp only [finishing, lost_true, if_true]
        exact after
      · exact .inr spent
  · simp only [finishing]
    split
    · exact bounded_entered.loseContinuity _ _
    · exact bounded_entered
  · simp only [finishing]
    split
    · exact kept_entered.loseContinuity _ _
    · exact kept_entered
  · intro owner owned
    obtain ⟨later, extends_owner, owned_later, here⟩ := owned_entered owner owned
    refine ⟨later, extends_owner, ?_, here⟩
    simp only [finishing]
    split
    · apply owned_later.mono
      · intro handle serial denotes
        exact denotes_loseContinuity.mp denotes
      · exact (drawn_loseContinuity _ _).ge
    · exact owned_later

def Changed (previous record : DeviceRecord) : Prop :=
  previous.state ≠ record.state ∨ previous.model ≠ record.model ∨
    previous.transportId ≠ record.transportId

theorem continuityLost_of_changed {previous record : DeviceRecord} {device : ParsedInventoryDevice}
    (described : record.state = device.state ∧ record.model = device.model ∧
      record.transportId = device.transportId) (changed : Changed previous record) :
    continuityLost previous device = true := by
  obtain ⟨state, model, transport⟩ := described
  by_contra kept
  simp only [continuityLost, Bool.not_eq_true, Bool.not_eq_false', Bool.and_eq_true, decide_eq_true_eq]
    at kept
  obtain ⟨⟨⟨⟨available, still⟩, same_model⟩, -⟩, same_transport⟩ := kept
  rcases changed with different | different | different
  · exact different (by rw [state, available, still])
  · exact different (by rw [model, same_model])
  · exact different (by rw [transport, same_transport])

structure LoopKept (uuid : Nat → String) (forced : List String) (start : SessionHandles)
    (loop : Reconciling) : Prop where
  erodes : Erodes start loop.handles
  devices : loop.handles.devicesByHandle = start.devicesByHandle
  drawn : start.drawn ≤ loop.handles.drawn
  bounded : EpochsBounded loop.handles
  reviews : ReviewsKept uuid loop.handles
  records : ∀ handle record, loop.present.get? handle = some record →
    record.handle = handle ∧ loop.handles.epoch? handle = some record.sessionEpoch
  facts : ∀ handle record value, loop.present.get? handle = some record → record.facts = some value →
    ∃ previous, start.devicesByHandle.get? handle = some previous ∧
      previous.sessionEpoch = record.sessionEpoch ∧ previous.facts = some value
  continuity : ∀ handle record previous epoch, loop.present.get? handle = some record →
    start.devicesByHandle.get? handle = some previous → Changed previous record →
      start.epoch? handle = some epoch →
        handle ∈ forced ∨ EpochGrows start loop.handles handle ∨ epoch = maxEpoch
  owned : ∀ owner, Owned uuid start owner → ∃ later, Extends owner later ∧
    Owned uuid loop.handles later ∧
      ∀ handle record, loop.present.get? handle = some record → later handle = some record.serial

theorem LoopKept.admitted {forced : List String} {start : SessionHandles} {device : ParsedInventoryDevice}
    {loop next : Reconciling} {name : String} {admitted : DeviceRecord}
    (kept : LoopKept uuid forced start loop)
    (admits : Admitted uuid forced device loop next name admitted) :
    LoopKept uuid forced start next where
  erodes := kept.erodes.trans admits.erodes
  devices := admits.devices.trans kept.devices
  drawn := kept.drawn.trans admits.drawn
  bounded := admits.bounded
  reviews := admits.reviews
  records := by
    intro handle record held
    rw [admits.present, OrderedMap.get?_insert] at held
    split at held
    next same =>
      subst same
      cases held
      exact ⟨admits.named, admits.epoch⟩
    next different =>
      obtain ⟨named, epoch⟩ := kept.records handle record held
      exact ⟨named, (admits.others handle different).trans epoch⟩
  facts := by
    intro handle record value held carried
    rw [admits.present, OrderedMap.get?_insert] at held
    split at held
    next same =>
      subst same
      cases held
      exact kept.devices ▸ admits.facts value carried
    next => exact kept.facts handle record value held carried
  continuity := by
    intro handle record previous epoch held old changed early
    rw [admits.present, OrderedMap.get?_insert] at held
    split at held
    next same =>
      subst same
      cases held
      obtain ⟨middle, there, -⟩ := kept.erodes.epochs handle epoch early
      have broken := continuityLost_of_changed admits.described changed
      rcases admits.continuity previous middle (kept.devices ▸ old) broken there with inside | grown
      · exact .inl inside
      · exact .inr (kept.erodes.grows early there admits.erodes grown)
    next =>
      rcases kept.continuity handle record previous epoch held old changed early with
        inside | grows | spent
      · exact .inl inside
      · exact .inr (.inl (grows.later admits.erodes))
      · exact .inr (.inr spent)
  owned := by
    intro owner owned
    obtain ⟨middle, extends_owner, owned_middle, named⟩ := kept.owned owner owned
    obtain ⟨later, extends_middle, owned_later, here⟩ := admits.owned middle owned_middle
    refine ⟨later, fun handle serial known => extends_middle _ _ (extends_owner _ _ known), owned_later, ?_⟩
    intro handle record held
    rw [admits.present, OrderedMap.get?_insert] at held
    split at held
    next same =>
      subst same
      cases held
      exact here.trans (congrArg some admits.serial.symm)
    next => exact extends_middle _ _ (named handle record held)

theorem loopKept_foldl (distinct : Function.Injective uuid) {forced : List String}
    {start : SessionHandles} (parsed : List ParsedInventoryDevice) {loop : Reconciling}
    (kept : LoopKept uuid forced start loop) :
    LoopKept uuid forced start (parsed.foldl (reconcileDevice uuid forced) loop) := by
  induction parsed generalizing loop with
  | nil => exact kept
  | cons device parsed ih =>
      obtain ⟨handle, record, admits⟩ :=
        reconcileDevice_admits distinct forced device kept.bounded kept.reviews
      exact ih (kept.admitted admits)

theorem loopKept_start {forced : List String} (bounded : EpochsBounded handles)
    (reviews : ReviewsKept uuid handles) : LoopKept uuid forced handles ⟨handles, .empty⟩ where
  erodes := .refl handles
  devices := rfl
  drawn := Nat.le_refl _
  bounded := bounded
  reviews := reviews
  records := nofun
  facts := nofun
  continuity := nofun
  owned := fun owner owned => ⟨owner, fun _ _ known => known, owned, nofun⟩

structure Reconciled (uuid : Nat → String) (parsed : List ParsedInventoryDevice)
    (before after : SessionHandles) : Prop where
  erodes : Erodes before after
  drawn : before.drawn ≤ after.drawn
  bounded : EpochsBounded after
  reviews : ReviewsKept uuid after
  records : ∀ handle record, after.devicesByHandle.get? handle = some record →
    record.handle = handle ∧ after.epoch? handle = some record.sessionEpoch
  facts : ∀ handle record value, after.devicesByHandle.get? handle = some record →
    record.facts = some value → ∃ previous, before.devicesByHandle.get? handle = some previous ∧
      previous.sessionEpoch = record.sessionEpoch ∧ previous.facts = some value
  disappeared : ∀ handle epoch, (before.devicesByHandle.get? handle).isSome →
    after.devicesByHandle.get? handle = none → before.epoch? handle = some epoch →
      EpochGrows before after handle ∨ epoch = maxEpoch
  changed : ∀ handle record previous epoch, after.devicesByHandle.get? handle = some record →
    before.devicesByHandle.get? handle = some previous → Changed previous record →
      before.epoch? handle = some epoch → EpochGrows before after handle ∨ epoch = maxEpoch
  crowded : ∀ handle epoch previous, before.lastInventoryCount = some previous →
    (previous > 1 ∨ parsed.length > 1) → before.epoch? handle = some epoch →
      EpochGrows before after handle ∨ epoch = maxEpoch
  owned : ∀ owner, Owned uuid before owner → ∃ later, Extends owner later ∧ Owned uuid after later

theorem drawn_loseAll (code : String) (lost : List String) :
    (loseAll code lost handles).drawn = handles.drawn := by
  induction lost generalizing handles with
  | nil => rfl
  | cons handle lost ih => exact ih.trans (drawn_loseContinuity handle code)

theorem owned_loseAll {owner : String → Option String} (owned : Owned uuid handles owner)
    (code : String) (lost : List String) : Owned uuid (loseAll code lost handles) owner := by
  induction lost generalizing handles with
  | nil => exact owned
  | cons handle lost ih =>
      apply ih
      apply owned.mono
      · intro other serial denotes
        exact denotes_loseContinuity.mp denotes
      · exact (drawn_loseContinuity handle code).ge

theorem mem_forcedEpochHandles {inventoryCount previous : Nat} {epoch : Nat}
    (counted : handles.lastInventoryCount = some previous) (crowded : previous > 1 ∨ inventoryCount > 1)
    (held : handles.epoch? handle = some epoch) : handle ∈ handles.forcedEpochHandles inventoryCount := by
  have transition : handles.cardinalityTransition inventoryCount = true := by
    rw [cardinalityTransition, counted]
    simpa using crowded
  have known : handle ∈ handles.sessionEpochByHandle.keys :=
    OrderedMap.get?_isSome.mp (Option.isSome_iff_exists.mpr ⟨epoch, held⟩)
  rw [forcedEpochHandles, if_pos transition, List.mem_dedup, List.mem_append]
  exact .inl known

/-- Reconciling an inventory keeps the session sound and revokes what has changed. -/
theorem reconcile_reconciles (distinct : Function.Injective uuid) (parsed : List ParsedInventoryDevice)
    (bounded : EpochsBounded handles) (reviews : ReviewsKept uuid handles) :
    Reconciled uuid parsed handles (handles.reconcile uuid parsed) := by
  obtain ⟨forced, forcing⟩ : ∃ forced, forced = handles.forcedEpochHandles parsed.length := ⟨_, rfl⟩
  obtain ⟨started, starting⟩ :
      ∃ started, started = loseAll "device_qualification_changed" forced handles := ⟨_, rfl⟩
  obtain ⟨loop, looping⟩ :
      ∃ loop, loop = parsed.foldl (reconcileDevice uuid forced) ⟨started, .empty⟩ := ⟨_, rfl⟩
  obtain ⟨gone, going⟩ : ∃ gone, gone = loop.handles.disappeared loop.present forced := ⟨_, rfl⟩
  obtain ⟨ended, ending⟩ : ∃ ended, ended = loseAll "review_stale" gone loop.handles := ⟨_, rfl⟩
  have final : handles.reconcile uuid parsed =
      { ended with
        devicesByHandle := loop.present
        lastInventoryCount := some parsed.length
        deviceGeneration := nextEpoch ended.deviceGeneration } := by
    rw [ending, going, looping, starting, forcing]
    rfl
  have bounded_start : EpochsBounded started := starting ▸ bounded.loseAll _ _
  have reviews_start : ReviewsKept uuid started := starting ▸ reviews.loseAll _ _
  have start_erodes : Erodes handles started := starting ▸ erodes_loseAll bounded _ _
  have devices_start : started.devicesByHandle = handles.devicesByHandle := by
    rw [starting]
    exact devices_loseAll _ _
  have kept : LoopKept uuid forced started loop :=
    looping ▸ loopKept_foldl distinct parsed (loopKept_start bounded_start reviews_start)
  have end_erodes : Erodes loop.handles ended := ending ▸ erodes_loseAll kept.bounded _ _
  have settled : ∀ handle, handle ∉ gone → ended.epoch? handle = loop.handles.epoch? handle := by
    intro handle stays
    rw [ending]
    exact epoch?_loseAll_other stays
  have whole : Erodes handles ended := (start_erodes.trans kept.erodes).trans end_erodes
  -- A forced handle has its new epoch before the inventory is gone through.
  have forced_grows : ∀ handle epoch, handle ∈ forced → handles.epoch? handle = some epoch →
      EpochGrows handles ended handle ∨ epoch = maxEpoch := by
    intro handle epoch inside held
    rcases @epochGrows_loseAll _ bounded "device_qualification_changed" _ _ _ inside held with grows | spent
    · exact .inl ((starting ▸ grows).later (kept.erodes.trans end_erodes))
    · exact .inr spent
  have drawn : handles.drawn ≤ ended.drawn := by
    have first : started.drawn = handles.drawn := starting ▸ drawn_loseAll _ _
    have last : ended.drawn = loop.handles.drawn := ending ▸ drawn_loseAll _ _
    have middle := kept.drawn
    omega
  rw [final]
  refine ⟨⟨whole.contexts, whole.reviews, whole.epochs, whole.revoked⟩, drawn, ?_, ?_, ?_, ?_, ?_, ?_, ?_, ?_⟩
  · intro handle epoch held
    exact (ending ▸ EpochsBounded.loseAll kept.bounded _ _ : EpochsBounded ended) handle epoch held
  · exact (ending ▸ kept.reviews.loseAll _ _ : ReviewsKept uuid ended).of_same rfl rfl rfl (Nat.le_refl _)
  · intro handle record held
    obtain ⟨named, epoch⟩ := kept.records handle record held
    refine ⟨named, (settled handle ?_).trans epoch⟩
    rw [going, disappeared, List.mem_filter, List.mem_filter]
    have listed : loop.present.contains handle = true := by simp [held]
    simp [listed]
  · intro handle record value held carried
    exact devices_start ▸ kept.facts handle record value held carried
  · intro handle epoch present absent held
    by_cases inside : handle ∈ forced
    · exact forced_grows handle epoch inside held
    · obtain ⟨early, there, -⟩ := start_erodes.epochs handle epoch held
      obtain ⟨middle, here, -⟩ := kept.erodes.epochs handle early there
      have left : handle ∈ gone := by
        have unlisted : loop.present.contains handle = false := by
          rw [Bool.eq_false_iff, ne_eq, OrderedMap.contains_iff, absent]
          exact nofun
        rw [going, disappeared, List.mem_filter, List.mem_filter, kept.devices, devices_start]
        exact ⟨⟨OrderedMap.get?_isSome.mp present, by simp [unlisted]⟩, by simpa using inside⟩
      have grows : EpochGrows loop.handles ended handle ∨ middle = maxEpoch :=
        ending ▸ epochGrows_loseAll kept.bounded left here
      have grown : EpochGrows handles ended handle ∨ epoch = maxEpoch :=
        (start_erodes.trans kept.erodes).grows held here end_erodes grows
      exact grown
  · intro handle record previous epoch held old changed early
    obtain ⟨middle, there, -⟩ := start_erodes.epochs handle epoch early
    rcases kept.continuity handle record previous middle held (devices_start ▸ old) changed there with
      inside | grown
    · exact forced_grows handle epoch inside early
    · rcases start_erodes.grows early there kept.erodes grown with grows | spent
      · have later : EpochGrows handles ended handle := grows.later end_erodes
        exact .inl later
      · exact .inr spent
  · intro handle epoch previous counted crowded held
    exact forced_grows handle epoch (forcing ▸ mem_forcedEpochHandles counted crowded held) held
  · intro owner owned
    have owned_start : Owned uuid started owner := starting ▸ owned_loseAll owned _ _
    obtain ⟨later, extends_owner, owned_later, named⟩ := kept.owned owner owned_start
    have owned_end : Owned uuid ended later := ending ▸ owned_loseAll owned_later _ _
    refine ⟨later, extends_owner, ?_, owned_end.issued⟩
    rintro handle serial (known | ⟨record, held, rfl⟩)
    · exact owned_end.denoted handle serial (.inl known)
    · exact named handle record held

structure Valid (uuid : Nat → String) (handles : SessionHandles) : Prop where
  bounded : EpochsBounded handles
  reviews : ReviewsKept uuid handles
  records : ∀ handle record, handles.devicesByHandle.get? handle = some record →
    record.handle = handle ∧ handles.epoch? handle = some record.sessionEpoch

/-- Nothing is recorded and no device appears; a device that goes leaves its session behind. -/
structure Passive (before after : SessionHandles) : Prop where
  erodes : Erodes before after
  devices : ∀ handle record, after.devicesByHandle.get? handle = some record →
    before.devicesByHandle.get? handle = some record ∧ after.epoch? handle = before.epoch? handle
  disappeared : ∀ handle epoch, (before.devicesByHandle.get? handle).isSome →
    after.devicesByHandle.get? handle = none → before.epoch? handle = some epoch →
      EpochGrows before after handle ∨ epoch = maxEpoch
  bounded : EpochsBounded after
  denotes : ∀ handle serial, Denotes after handle serial → Denotes before handle serial
  drawn : after.drawn = before.drawn

theorem Passive.valid (passive : Passive handles after) (valid : Valid uuid handles)
    (reviews : ReviewsKept uuid after) : Valid uuid after where
  bounded := passive.bounded
  reviews := reviews
  records := by
    intro handle record held
    obtain ⟨old, same⟩ := passive.devices handle record held
    obtain ⟨named, epoch⟩ := valid.records handle record old
    exact ⟨named, same.trans epoch⟩

theorem SameDevices.passive (same : SameDevices handles after) (bounded : EpochsBounded handles)
    (fewer : ∀ handle review, after.reviews.get? handle = some review →
      handles.reviews.get? handle = some review) : Passive handles after where
  erodes := same.erodes fewer
  devices := by
    intro handle record held
    rw [same.devices] at held
    exact ⟨held, same.epoch? handle⟩
  disappeared := by
    intro handle epoch present absent
    rw [same.devices] at absent
    rw [absent] at present
    exact nomatch present
  bounded := fun handle epoch held => bounded handle epoch (same.epoch? handle ▸ held)
  denotes := fun handle serial => same.denotes.mp
  drawn := same.drawn_eq

theorem passive_removeReviews (bounded : EpochsBounded handles) (code : String) (removed : List String) :
    Passive handles (handles.removeReviews code removed) :=
  (sameDevices_removeReviews handles code removed).passive bounded
    (erodes_removeReviews code removed).reviews

theorem Passive.trans (early : Passive first second) (same : SameDevices second third)
    (fewer : ∀ handle review, third.reviews.get? handle = some review →
      second.reviews.get? handle = some review) : Passive first third := by
  have late := same.passive early.bounded fewer
  refine ⟨early.erodes.trans late.erodes, ?_, ?_, late.bounded, ?_, late.drawn.trans early.drawn⟩
  · intro handle record held
    obtain ⟨middle, epoch⟩ := late.devices handle record held
    obtain ⟨old, early_epoch⟩ := early.devices handle record middle
    exact ⟨old, epoch.trans early_epoch⟩
  · intro handle epoch present absent held
    rw [same.devices] at absent
    rcases early.disappeared handle epoch present absent held with grows | spent
    · exact .inl (grows.later late.erodes)
    · exact .inr spent
  · intro handle serial denotes
    exact early.denotes handle serial (late.denotes handle serial denotes)

section

variable (valid : Valid uuid handles)

include valid

theorem passive_discardReview (handle : String) (now : Nat) :
    Passive handles (handles.discardReview handle now).2 ∧
      ReviewsKept uuid (handles.discardReview handle now).2 := by
  have expired := passive_removeReviews valid.bounded "review_expired" (handles.reviewsWhere (isExpired now))
  have kept := valid.reviews.removeReviewsWhere "review_expired" (isExpired now)
  rw [discardReview]
  split
  next present =>
    constructor
    · exact expired.trans (sameDevices_removeReviews _ "review_stale" [handle])
        (erodes_removeReviews "review_stale" [handle]).reviews
    · apply kept.removeReview
      apply kept.issued
      exact OrderedMap.get?_isSome.mp (OrderedMap.contains_iff.mp present)
  next =>
    split
    · exact ⟨expired, kept⟩
    · exact ⟨expired, kept⟩

theorem passive_invalidateReview (handle code : String) :
    Passive handles (handles.invalidateReview handle code) ∧
      ReviewsKept uuid (handles.invalidateReview handle code) := by
  rw [invalidateReview]
  split
  next present =>
    constructor
    · exact passive_removeReviews valid.bounded code [handle]
    · apply valid.reviews.removeReview
      apply valid.reviews.issued
      exact OrderedMap.get?_isSome.mp (OrderedMap.contains_iff.mp present)
  next => exact ⟨passive_removeReviews valid.bounded code [], valid.reviews⟩

theorem passive_invalidateReviewsForDeviceIf (deviceHandle code : String)
    (predicate : ReviewedPlanSnapshot → Bool) :
    Passive handles (handles.invalidateReviewsForDeviceIf deviceHandle code predicate) ∧
      ReviewsKept uuid (handles.invalidateReviewsForDeviceIf deviceHandle code predicate) :=
  ⟨passive_removeReviews valid.bounded code _, valid.reviews.removeReviewsWhere code _⟩

theorem passive_clearQualificationContext (handle : String) :
    Passive handles (handles.clearQualificationContext handle).2 ∧
      ReviewsKept uuid (handles.clearQualificationContext handle).2 := by
  have cleared : Passive handles
      { handles with
        qualificationContextByHandle := handles.qualificationContextByHandle.erase handle } := by
    refine ⟨⟨?_, fun _ _ held => held, fun _ epoch held => ⟨epoch, held, Nat.le_refl _⟩, ?_⟩,
      fun _ _ held => ⟨held, rfl⟩, ?_, valid.bounded, fun _ _ denotes => denotes, rfl⟩
    · intro other context held
      have found : (handles.qualificationContextByHandle.erase handle).get? other = some context := held
      rw [OrderedMap.get?_erase] at found
      split at found
      · exact nomatch found
      · exact found
    · intro other grows
      exact absurd grows (not_epochGrows_of_same rfl)
    · intro other epoch present absent
      rw [absent] at present
      exact nomatch present
  have kept : ReviewsKept uuid
      { handles with
        qualificationContextByHandle := handles.qualificationContextByHandle.erase handle } :=
    valid.reviews.of_same rfl rfl rfl (Nat.le_refl _)
  rw [clearQualificationContext]
  dsimp only
  split
  · exact ⟨cleared.trans (sameDevices_invalidateReviewsForDevice _ _) fun _ _ held =>
      (get?_invalidateReviewsForDevice.mp held).1, kept.removeReviewsWhere _ _⟩
  · exact ⟨cleared, kept⟩

omit valid in
theorem get?_reviews_invalidateIdentityAuthority {deviceHandle name : String} :
    (handles.invalidateIdentityAuthority deviceHandle).reviews.get? name = some review ↔
      handles.reviews.get? name = some review ∧ review.deviceHandle ≠ deviceHandle :=
  get?_invalidateReviewsForDevice

omit valid in
theorem get?_reviews_invalidateRuntimeAuthority {name : String} :
    handles.invalidateRuntimeAuthorityPreservingIdentities.reviews.get? name = none := by
  have removed : (handles.removeReviews "review_stale" handles.reviews.keys).reviews.get? name = none := by
    rw [get?_removeReviews]
    split
    next => rfl
    next unlisted => exact OrderedMap.get?_eq_none.mpr unlisted
  exact removed

theorem passive_invalidateIdentityAuthority (deviceHandle : String) :
    Passive handles (handles.invalidateIdentityAuthority deviceHandle) ∧
      ReviewsKept uuid (handles.invalidateIdentityAuthority deviceHandle) := by
  obtain ⟨cleared, clearing⟩ : ∃ cleared : SessionHandles, cleared = { handles with
      devicesByHandle := handles.devicesByHandle.erase deviceHandle
      qualificationContextByHandle := handles.qualificationContextByHandle.erase deviceHandle } := ⟨_, rfl⟩
  have same := @sameDevices_invalidateReviewsForDevice cleared deviceHandle "review_stale"
  obtain ⟨left, leaving⟩ :
      ∃ left, left = cleared.invalidateReviewsForDevice deviceHandle "review_stale" := ⟨_, rfl⟩
  have final : handles.invalidateIdentityAuthority deviceHandle =
      { left.advanceEpoch deviceHandle with
        deviceGeneration := nextEpoch (left.advanceEpoch deviceHandle).deviceGeneration } := by
    rw [leaving, clearing]
    rfl
  rw [← leaving] at same
  have epochs : ∀ handle, (handles.invalidateIdentityAuthority deviceHandle).epoch? handle =
      if handle = deviceHandle then some (nextEpoch ((handles.epoch? deviceHandle).getD 1))
      else handles.epoch? handle := by
    intro handle
    have before : ∀ other, left.epoch? other = handles.epoch? other := by
      intro other
      rw [same.epoch?, clearing]
      rfl
    rw [final, ← before, ← before]
    exact epoch?_advanceEpoch
  have contexts : ∀ handle, (handles.invalidateIdentityAuthority deviceHandle).qualificationContext handle =
      if handle = deviceHandle then none else handles.qualificationContext handle := by
    intro handle
    have kept : (handles.invalidateIdentityAuthority deviceHandle).qualificationContext handle =
        left.qualificationContext handle := by
      rw [final]
      rfl
    rw [kept, same.context, clearing]
    exact OrderedMap.get?_erase
  have devices : ∀ handle, (handles.invalidateIdentityAuthority deviceHandle).devicesByHandle.get? handle =
      if handle = deviceHandle then none else handles.devicesByHandle.get? handle := by
    intro handle
    have kept : (handles.invalidateIdentityAuthority deviceHandle).devicesByHandle =
        left.devicesByHandle := by
      rw [final]
      rfl
    rw [kept, same.devices, clearing]
    exact OrderedMap.get?_erase
  have kept_left : ReviewsKept uuid left := by
    have kept_cleared : ReviewsKept uuid cleared := by
      rw [clearing]
      exact valid.reviews.of_same rfl rfl rfl (Nat.le_refl _)
    rw [leaving]
    exact kept_cleared.removeReviewsWhere _ _
  refine ⟨⟨⟨?_, ?_, ?_, ?_⟩, ?_, ?_, ?_, ?_, ?_⟩, ?_⟩
  · intro handle context held
    rw [contexts] at held
    split at held
    · exact nomatch held
    · exact held
  · exact fun name review held => (get?_reviews_invalidateIdentityAuthority.mp held).1
  · intro handle epoch held
    rw [epochs]
    split
    next same =>
      subst same
      rw [held]
      exact ⟨_, rfl, le_nextEpoch (valid.bounded handle epoch held)⟩
    next => exact ⟨epoch, held, Nat.le_refl _⟩
  · intro handle grows
    by_cases here : handle = deviceHandle
    · rw [contexts, if_pos here]
      exact ⟨rfl, fun name review held => here ▸ (get?_reviews_invalidateIdentityAuthority.mp held).2⟩
    · refine absurd grows (not_epochGrows_of_same ?_)
      rw [epochs, if_neg here]
  · intro handle record held
    rw [devices] at held
    split at held
    next => exact nomatch held
    next other => exact ⟨held, (epochs handle).trans (if_neg other)⟩
  · intro handle epoch present absent held
    rw [devices] at absent
    split at absent
    next here =>
      subst here
      rcases lt_nextEpoch (valid.bounded handle epoch held) with grows | spent
      · refine .inl ⟨epoch, nextEpoch epoch, held, ?_, grows⟩
        rw [epochs, if_pos rfl, held]
        rfl
      · exact .inr spent
    next =>
      rw [absent] at present
      exact nomatch present
  · intro handle epoch held
    rw [epochs] at held
    split at held
    · cases held
      exact nextEpoch_le _
    · exact valid.bounded handle epoch held
  · rintro handle serial (known | ⟨record, held, rfl⟩)
    · left
      have kept : (handles.invalidateIdentityAuthority deviceHandle).handleBySerial =
          handles.handleBySerial := by
        have inner : left.handleBySerial = cleared.handleBySerial := by rw [same]
        rw [final]
        exact inner.trans (by rw [clearing])
      rw [← kept]
      exact known
    · rw [devices] at held
      split at held
      · exact nomatch held
      · exact .inr ⟨record, held, rfl⟩
  · rw [final]
    have drawn := same.drawn_eq
    rw [clearing] at drawn
    exact drawn
  · rw [final]
    exact kept_left.of_same rfl rfl rfl (Nat.le_refl _)

theorem passive_invalidateRuntimeAuthority :
    Passive handles handles.invalidateRuntimeAuthorityPreservingIdentities ∧
      ReviewsKept uuid handles.invalidateRuntimeAuthorityPreservingIdentities := by
  obtain ⟨left, leaving⟩ :
      ∃ left, left = handles.removeReviews "review_stale" handles.reviews.keys := ⟨_, rfl⟩
  have same : SameDevices handles left := leaving ▸ sameDevices_removeReviews ..
  have final : handles.invalidateRuntimeAuthorityPreservingIdentities =
      { left with
        reviewOrder := []
        devicesByHandle := .empty
        qualificationContextByHandle := .empty
        lastInventoryCount := none
        sessionEpochByHandle := left.sessionEpochByHandle.mapValues fun _ epoch => nextEpoch epoch } := by
    rw [leaving]
    rfl
  have empty : ∀ name, left.reviews.get? name = none := by
    intro name
    rw [leaving]
    exact get?_reviews_invalidateRuntimeAuthority
  have epochs : ∀ handle, handles.invalidateRuntimeAuthorityPreservingIdentities.epoch? handle =
      (handles.epoch? handle).map nextEpoch := by
    intro handle
    rw [final, ← same.epoch? handle]
    exact OrderedMap.get?_mapValues
  have grows : ∀ handle epoch, handles.epoch? handle = some epoch →
      EpochGrows handles handles.invalidateRuntimeAuthorityPreservingIdentities handle ∨
        epoch = maxEpoch := by
    intro handle epoch held
    rcases lt_nextEpoch (valid.bounded handle epoch held) with larger | spent
    · refine .inl ⟨epoch, nextEpoch epoch, held, ?_, larger⟩
      rw [epochs, held]
      rfl
    · exact .inr spent
  have kept_left : ReviewsKept uuid left := by
    rw [leaving]
    exact valid.reviews.removeReviews _ valid.reviews.issued
  have no_keys : left.reviews.keys = [] := by
    rw [List.eq_nil_iff_forall_not_mem]
    exact fun name => OrderedMap.get?_eq_none.mp (empty name)
  refine ⟨⟨⟨?_, ?_, ?_, ?_⟩, ?_, ?_, ?_, ?_, ?_⟩, ?_⟩
  · rw [final]
    exact nofun
  · intro name review held
    rw [final] at held
    exact nomatch (empty name).symm.trans held
  · intro handle epoch held
    rw [epochs, held]
    exact ⟨_, rfl, le_nextEpoch (valid.bounded handle epoch held)⟩
  · intro handle _
    rw [final]
    constructor
    · rfl
    · intro name review held
      exact nomatch (empty name).symm.trans held
  · rw [final]
    exact nofun
  · intro handle epoch _ _ held
    exact grows handle epoch held
  · intro handle epoch held
    rw [epochs] at held
    obtain ⟨old, -, rfl⟩ := Option.map_eq_some_iff.mp held
    exact nextEpoch_le old
  · rw [final]
    rintro handle serial (known | ⟨record, held, -⟩)
    · left
      rw [same] at known
      exact known
    · exact nomatch held
  · rw [final]
    exact same.drawn_eq
  · rw [final]
    refine ⟨⟨List.nodup_nil, fun name => ?_⟩, kept_left.bounded, kept_left.issued, kept_left.retired⟩
    simp only [no_keys]

theorem passive_invalidateAll :
    Passive handles handles.invalidateAll ∧ ReviewsKept uuid handles.invalidateAll := by
  obtain ⟨passive, kept⟩ := passive_invalidateRuntimeAuthority valid
  refine ⟨⟨⟨passive.erodes.contexts, passive.erodes.reviews, passive.erodes.epochs,
    passive.erodes.revoked⟩, passive.devices, passive.disappeared, passive.bounded, ?_, passive.drawn⟩,
    kept.of_same rfl rfl rfl (Nat.le_refl _)⟩
  rintro handle serial (known | ⟨record, held, same⟩)
  · exact nomatch known
  · exact passive.denotes handle serial (.inr ⟨record, held, same⟩)

theorem setQualificationContext_spec (context : QualificationContextKey) :
    ∃ middle, SameDevices handles middle ∧ ReviewsKept uuid middle ∧
      (∀ name review, middle.reviews.get? name = some review → handles.reviews.get? name = some review) ∧
        (handles.setQualificationContext context).2 = { middle with
          qualificationContextByHandle :=
            middle.qualificationContextByHandle.insert context.deviceHandle context } := by
  rw [setQualificationContext]
  dsimp only
  split
  · exact ⟨_, sameDevices_invalidateReviewsForDevice _ _, valid.reviews.removeReviewsWhere _ _,
      fun name review held => (get?_invalidateReviewsForDevice.mp held).1, rfl⟩
  · exact ⟨handles, .refl handles, valid.reviews, fun _ _ held => held, rfl⟩

theorem setFactsForEpoch_spec (handle : String) (expectedEpoch : Nat) (facts : Json) :
    (handles.setFactsForEpoch handle expectedEpoch facts).2 = handles ∨
      ∃ record middle, handles.devicesByHandle.get? handle = some record ∧
        record.sessionEpoch = expectedEpoch ∧ SameDevices handles middle ∧ ReviewsKept uuid middle ∧
        (∀ name review, middle.reviews.get? name = some review →
          handles.reviews.get? name = some review) ∧
        handles.setFactsForEpoch handle expectedEpoch facts = (.ok (), { middle with
          devicesByHandle := middle.devicesByHandle.insert handle
            { record with facts := some facts, factsSessionEpoch := some expectedEpoch } }) := by
  rw [setFactsForEpoch]
  split
  next => exact .inl rfl
  next record held =>
    split
    next => exact .inl rfl
    next accepted =>
      right
      simp only [Bool.or_eq_true, decide_eq_true_eq, not_or, ne_eq, not_not] at accepted
      refine ⟨record, _, held, accepted.2, ?_, ?_, ?_, rfl⟩
      · split
        · exact sameDevices_invalidateReviewsForDevice _ _
        · exact .refl handles
      · split
        · exact valid.reviews.removeReviewsWhere _ _
        · exact valid.reviews
      · intro name review
        split
        · exact fun found => (get?_invalidateReviewsForDevice.mp found).1
        · exact id

end

theorem reviewName_injective (distinct : Function.Injective uuid) :
    Function.Injective (reviewName uuid) := by
  intro first second same
  exact distinct ((String.append_right_inj _).mp same)

theorem get?_expireReviews {now : Nat} {name : String} :
    (handles.expireReviews now).reviews.get? name = some review ↔
      handles.reviews.get? name = some review ∧ isExpired now review = false :=
  get?_removeReviewsWhere

theorem insertReview_spec (distinct : Function.Injective uuid) (valid : Valid uuid handles)
    (snapshot : ReviewedPlanSnapshot) (now later : Nat) :
    ∃ after, handles.insertReview uuid snapshot now later =
        some (reviewName uuid handles.drawn, after) ∧
      ReviewsKept uuid after ∧ SameDevices { handles with drawn := handles.drawn + 1 } after ∧
        ∀ name review, after.reviews.get? name = some review →
          (name = reviewName uuid handles.drawn ∧
            review = { snapshot with created := later, lastAccess := later }) ∨
          (handles.reviews.get? name = some review ∧ isExpired now review = false) := by
  have expired_kept : ReviewsKept uuid (handles.expireReviews now) :=
    valid.reviews.removeReviewsWhere "review_expired" (isExpired now)
  have expired_same : SameDevices handles (handles.expireReviews now) := sameDevices_removeReviews ..
  obtain ⟨evicted, evicting, kept, room, survives⟩ := evictReviews_some expired_kept
  have same : SameDevices handles evicted := expired_same.trans (sameDevices_evictReviews evicting)
  have drawn : evicted.drawn = handles.drawn := same.drawn_eq
  have fresh : ¬Issued (reviewName uuid) handles.drawn (reviewName uuid handles.drawn) :=
    not_issued_next (reviewName_injective distinct)
  have absent : reviewName uuid handles.drawn ∉ evicted.reviews.keys := by
    intro member
    have issued := kept.issued _ member
    rw [drawn] at issued
    exact fresh issued
  have inserted : handles.insertReview uuid snapshot now later =
      some (reviewName uuid handles.drawn,
        { evicted with
          reviewOrder := evicted.reviewOrder ++ [reviewName uuid handles.drawn]
          reviews := evicted.reviews.insert (reviewName uuid handles.drawn)
            { snapshot with created := later, lastAccess := later }
          drawn := handles.drawn + 1 }) := by
    rw [insertReview]
    simp only [evicting, drawn, Option.bind_eq_bind, Option.bind_some]
    rfl
  refine ⟨_, inserted, ⟨?_, ?_, ?_, ?_⟩, ?_, ?_⟩
  · exact kept.inStep.push absent _
  · have order := (kept.inStep.push absent
      { snapshot with created := later, lastAccess := later }).perm.length_eq
    have before := kept.inStep.perm.length_eq
    rw [List.length_append, List.length_singleton] at order
    dsimp only
    omega
  · intro name member
    rcases OrderedMap.keys_insert.mp member with rfl | old
    · exact issued_next
    · have issued := kept.issued name old
      rw [drawn] at issued
      exact issued.mono (Nat.le_succ _)
  · intro tombstone member
    obtain ⟨issued, unlisted⟩ := kept.retired tombstone member
    rw [drawn] at issued
    refine ⟨issued.mono (Nat.le_succ _), fun inside => ?_⟩
    rcases OrderedMap.keys_insert.mp inside with same_name | old
    · exact fresh (same_name ▸ issued)
    · exact unlisted old
  · rw [SameDevices] at same ⊢
    rw [same]
  · intro name review held
    simp only [OrderedMap.get?_insert] at held
    split at held
    next here => exact .inl ⟨here, (Option.some.inj held).symm⟩
    next => exact .inr (get?_expireReviews.mp (survives name review held))

theorem review_spec (kept : ReviewsKept uuid handles) (name : String) (now later : Nat) :
    (∃ found, handles.reviews.get? name = some found ∧ isExpired now found = false ∧
      handles.review name now later =
        (.ok { found with lastAccess := later },
          { handles.expireReviews now with
            reviews := (handles.expireReviews now).reviews.insert name
              { found with lastAccess := later } })) ∨
      ((∀ found, handles.reviews.get? name = some found → isExpired now found = true) ∧
        (handles.review name now later).2 = handles.expireReviews now ∧
          ∃ message, (handles.review name now later).1 = .error message) := by
  have expired_kept : ReviewsKept uuid (handles.expireReviews now) :=
    kept.removeReviewsWhere "review_expired" (isExpired now)
  rw [review]
  dsimp only
  cases held : (handles.expireReviews now).reviews.get? name with
  | some found =>
      obtain ⟨retained, current⟩ := get?_expireReviews.mp held
      have unmarked : (handles.expireReviews now).tombstone? name = none := by
        rw [tombstone?, List.find?_eq_none]
        intro tombstone member same
        have same_name : tombstone.handle = name := by simpa using same
        apply (expired_kept.retired tombstone member).2
        rw [same_name]
        exact OrderedMap.get?_isSome.mp (by simp [held])
      left
      refine ⟨found, retained, current, ?_⟩
      rw [unmarked]
  | none =>
      right
      refine ⟨?_, ?_⟩
      · intro found retained
        by_contra current
        have kept_found := get?_expireReviews.mpr ⟨retained, by simpa using current⟩
        rw [held] at kept_found
        exact nomatch kept_found
      · cases (handles.expireReviews now).tombstone? name with
        | some tombstone => exact ⟨rfl, _, rfl⟩
        | none => exact ⟨rfl, _, rfl⟩

end SessionHandles

end EmuChef.App
