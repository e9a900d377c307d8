import EmuChef.Lib.Worklist

/-! Depth-first searches that stop at an unknown point: one that also stops at a cycle, and one that
walks through cycles. -/

namespace EmuChef.DepthFirst

open Relation
open Worklist

variable {α : Type} {successors : α → Option (List α)}

section

variable [DecidableEq α]

def finishing (successors : α → Option (List α)) :
    Nat → List α → Finset α → α → Option (Finset α)
  | 0, _, _, _ => none
  | fuel + 1, visiting, visited, point =>
      if point ∈ visited then some visited
      else if point ∈ visiting then none
      else (successors point).bind fun others =>
        (others.foldlM (finishing successors fuel (point :: visiting)) visited).map (insert point)

def marking (successors : α → Option (List α)) : Nat → Finset α → α → Option (Finset α)
  | 0, _, _ => none
  | fuel + 1, visited, point =>
      if point ∈ visited then some visited
      else (successors point).bind fun others =>
        others.foldlM (marking successors fuel) (insert point visited)

end

def Known (successors : α → Option (List α)) (start : α) : Prop :=
  ∀ reached, ReflTransGen (Successor successors) start reached → (successors reached).isSome

def Reached (successors : α → Option (List α)) (starts : List α) (point : α) : Prop :=
  ∃ start ∈ starts, ReflTransGen (Successor successors) start point

theorem successor_of_listing {point : α} {others : List α} (listing : successors point = some others)
    {other : α} : Successor successors point other ↔ other ∈ others := by
  constructor
  · rintro ⟨found, same, member⟩
    obtain rfl : others = found := Option.some.inj (listing.symm.trans same)
    exact member
  · exact fun member => ⟨others, listing, member⟩

section

variable {visit : Finset α → α → Option (Finset α)} {points : List α} {visited after : Finset α}

theorem foldlM_relates (relates : Finset α → Finset α → Prop) (refl : ∀ set, relates set set)
    (trans : ∀ first second third, relates first second → relates second third →
      relates first third)
    (grows : ∀ before after, relates before after → before ⊆ after)
    (each : ∀ before, ∀ point ∈ points, ∀ after, visit before point = some after →
      relates before after ∧ point ∈ after)
    (ran : points.foldlM visit visited = some after) :
    relates visited after ∧ ∀ point ∈ points, point ∈ after := by
  induction points generalizing visited with
  | nil =>
      obtain rfl := Option.some.inj ran
      exact ⟨refl _, by simp⟩
  | cons point rest ih =>
      rw [List.foldlM_cons] at ran
      obtain ⟨middle, first, later⟩ := Option.bind_eq_some_iff.mp ran
      obtain ⟨here, listed⟩ := each visited point List.mem_cons_self middle first
      obtain ⟨there, others⟩ := ih
        (fun before other member => each before other (List.mem_cons_of_mem _ member)) later
      refine ⟨trans _ _ _ here there, fun other member => ?_⟩
      rcases List.mem_cons.mp member with rfl | member
      · exact grows _ _ there listed
      · exact others other member

theorem exists_foldlM (holds : Finset α → Prop)
    (each : ∀ before, ∀ point ∈ points, holds before →
      ∃ after, visit before point = some after ∧ holds after)
    (start : holds visited) : ∃ after, points.foldlM visit visited = some after ∧ holds after := by
  induction points generalizing visited with
  | nil => exact ⟨visited, rfl, start⟩
  | cons point rest ih =>
      obtain ⟨middle, first, held⟩ := each visited point List.mem_cons_self start
      obtain ⟨after, later, final⟩ := ih
        (fun before other member => each before other (List.mem_cons_of_mem _ member)) held
      refine ⟨after, ?_, final⟩
      rw [List.foldlM_cons, first]
      exact later

end

section

/-- The finished points are known, on no cycle, and closed under the successors. -/
structure Finished (successors : α → Option (List α)) (visited : Finset α) : Prop where
  known : ∀ point ∈ visited, (successors point).isSome
  closed : ∀ point ∈ visited, ∀ other, Successor successors point other → other ∈ visited
  grounded : ∀ point ∈ visited, Acc (fun there here => Successor successors here there) point

theorem Finished.reached {visited : Finset α} (finished : Finished successors visited)
    {point other : α} (member : point ∈ visited)
    (path : ReflTransGen (Successor successors) point other) : other ∈ visited := by
  induction path with
  | refl => exact member
  | tail _ edge ih => exact finished.closed _ ih _ edge

theorem Finished.insert [DecidableEq α] {visited : Finset α} (finished : Finished successors visited) {point : α}
    {others : List α} (listing : successors point = some others)
    (listed : ∀ other ∈ others, other ∈ visited) : Finished successors (insert point visited) := by
  have settled : ∀ other, Successor successors point other → other ∈ visited :=
    fun other edge => listed other ((successor_of_listing listing).mp edge)
  refine ⟨fun other member => ?_, fun other member next edge => ?_, fun other member => ?_⟩
  · rcases Finset.mem_insert.mp member with rfl | member
    · simp [listing]
    · exact finished.known other member
  · rcases Finset.mem_insert.mp member with rfl | member
    · exact Finset.mem_insert_of_mem (settled next edge)
    · exact Finset.mem_insert_of_mem (finished.closed other member next edge)
  · rcases Finset.mem_insert.mp member with rfl | member
    · exact Acc.intro _ fun next edge => finished.grounded next (settled next edge)
    · exact finished.grounded other member

structure Finishes (successors : α → Option (List α)) (origin : α → Prop)
    (before after : Finset α) : Prop where
  grows : before ⊆ after
  finished : Finished successors before → Finished successors after
  reached : ∀ other ∈ after, other ∈ before ∨ origin other

theorem Finishes.refl {origin : α → Prop} (set : Finset α) :
    Finishes successors origin set set :=
  ⟨Finset.Subset.refl _, id, fun _ => .inl⟩

theorem Finishes.trans {origin : α → Prop} {first second third : Finset α}
    (earlier : Finishes successors origin first second)
    (later : Finishes successors origin second third) : Finishes successors origin first third :=
  ⟨earlier.grows.trans later.grows, later.finished ∘ earlier.finished, fun other member =>
    (later.reached other member).elim (earlier.reached other) .inr⟩

theorem Finishes.mono {origin wider : α → Prop} {before after : Finset α}
    (finishes : Finishes successors origin before after) (covers : ∀ other, origin other → wider other) :
    Finishes successors wider before after :=
  ⟨finishes.grows, finishes.finished, fun other member =>
    (finishes.reached other member).imp_right (covers other)⟩

variable [DecidableEq α]

theorem finishing_finishes {fuel : Nat} {visiting : List α} {visited after : Finset α} {point : α}
    (ran : finishing successors fuel visiting visited point = some after) :
    Finishes successors (ReflTransGen (Successor successors) point) visited after ∧
      point ∈ after := by
  induction fuel generalizing visiting visited after point with
  | zero => cases ran
  | succ fuel ih =>
      rw [finishing] at ran
      by_cases done : point ∈ visited
      · rw [if_pos done] at ran
        obtain rfl := Option.some.inj ran
        exact ⟨.refl _, done⟩
      · rw [if_neg done] at ran
        by_cases loop : point ∈ visiting
        · rw [if_pos loop] at ran
          cases ran
        · rw [if_neg loop] at ran
          obtain ⟨others, listing, inner⟩ := Option.bind_eq_some_iff.mp ran
          obtain ⟨middle, visits, rfl⟩ := Option.map_eq_some_iff.mp inner
          obtain ⟨finishes, listed⟩ := foldlM_relates
            (Finishes successors (ReflTransGen (Successor successors) point))
            .refl (fun _ _ _ => .trans) (fun _ _ => Finishes.grows)
            (fun before other member after visit =>
              (ih visit).imp_left fun finishes => finishes.mono fun last path =>
                .head ((successor_of_listing listing).mpr member) path) visits
          refine ⟨⟨finishes.grows.trans (Finset.subset_insert _ _), fun finished =>
            (finishes.finished finished).insert listing listed, fun other member => ?_⟩,
            Finset.mem_insert_self _ _⟩
          rcases Finset.mem_insert.mp member with rfl | member
          · exact .inr .refl
          · exact finishes.reached other member

theorem mem_of_foldlM_finishing {fuel : Nat} {visiting points : List α} {visited after : Finset α}
    (ran : points.foldlM (finishing successors fuel visiting) visited = some after) :
    ∀ point ∈ points, point ∈ after :=
  (foldlM_relates (Finishes successors fun _ => True) .refl (fun _ _ _ => .trans)
    (fun _ _ => Finishes.grows) (fun _ _ _ _ visit => (finishing_finishes visit).imp_left
      fun finishes => finishes.mono fun _ _ => trivial) ran).2

variable {bound : Finset α}

theorem exists_finishing (bounded : ∀ point, (successors point).isSome → point ∈ bound)
    {fuel : Nat} {visiting : List α} {visited : Finset α} {point : α}
    (known : Known successors point) (acyclic : ¬ CycleReachable successors point)
    (distinct : visiting.Nodup) (inside : ∀ earlier ∈ visiting, earlier ∈ bound)
    (path : ∀ earlier ∈ visiting, TransGen (Successor successors) earlier point)
    (room : bound.card < fuel + visiting.length) :
    ∃ after, finishing successors fuel visiting visited point = some after := by
  induction fuel generalizing visiting visited point with
  | zero =>
      have short : visiting.length ≤ bound.card := by
        rw [← List.toFinset_card_of_nodup distinct]
        exact Finset.card_le_card fun earlier listed => inside earlier (List.mem_toFinset.mp listed)
      omega
  | succ fuel ih =>
      rw [finishing]
      by_cases done : point ∈ visited
      · exact ⟨visited, if_pos done⟩
      have fresh : point ∉ visiting := fun member => acyclic ⟨point, .refl, path point member⟩
      obtain ⟨others, listing⟩ := Option.isSome_iff_exists.mp (known point .refl)
      have belongs : point ∈ bound := bounded point (by simp [listing])
      obtain ⟨after, visits, _⟩ : ∃ after,
          others.foldlM (finishing successors fuel (point :: visiting)) visited = some after ∧
            True := by
        refine exists_foldlM (fun _ => True) (fun before other member _ => ?_) trivial
        have edge := (successor_of_listing listing).mpr member
        obtain ⟨after, ran⟩ : ∃ after,
            finishing successors fuel (point :: visiting) before other = some after := by
          refine ih (fun reached path => known reached (.head edge path))
            (fun ⟨last, path, cycle⟩ => acyclic ⟨last, .head edge path, cycle⟩)
            (List.nodup_cons.mpr ⟨fresh, distinct⟩) (fun earlier listed => ?_)
            (fun earlier listed => ?_) (by rw [List.length_cons]; omega)
          · rcases List.mem_cons.mp listed with rfl | listed
            · exact belongs
            · exact inside earlier listed
          · rcases List.mem_cons.mp listed with rfl | listed
            · exact .single edge
            · exact (path earlier listed).tail edge
        exact ⟨after, ran, trivial⟩
      refine ⟨insert point after, ?_⟩
      rw [if_neg done, if_neg fresh, listing, Option.bind_some, visits, Option.map_some]

theorem exists_finish (bounded : ∀ point, (successors point).isSome → point ∈ bound)
    {fuel : Nat} (room : bound.card < fuel) (starts : List α) :
    (∃ after, starts.foldlM (finishing successors fuel []) ∅ = some after) ↔
      ∀ start ∈ starts, Known successors start ∧ ¬ CycleReachable successors start := by
  constructor
  · rintro ⟨after, ran⟩ start member
    obtain ⟨finishes, listed⟩ := foldlM_relates (Finishes successors fun _ => True) .refl
      (fun _ _ _ => .trans) (fun _ _ => Finishes.grows)
      (fun _ _ _ _ visit => (finishing_finishes visit).imp_left fun finishes =>
        finishes.mono fun _ _ => trivial) ran
    have finished := finishes.finished ⟨by simp, by simp, by simp⟩
    have here := listed start member
    exact ⟨fun reached path => finished.known reached (finished.reached here path),
      not_cycleReachable_of_acc (finished.grounded start here)⟩
  · intro all
    obtain ⟨after, ran, _⟩ := exists_foldlM (fun _ => True)
      (fun before start member _ => by
        obtain ⟨known, acyclic⟩ := all start member
        obtain ⟨after, ran⟩ := @exists_finishing α successors _ bound bounded fuel [] before start
          known acyclic .nil (by simp) (by simp) (by simpa using room)
        exact ⟨after, ran, trivial⟩) trivial
    exact ⟨after, ran⟩

/-- A walk that finishes has visited what its starts reach. -/
theorem mem_finish {fuel : Nat} {starts : List α} {after : Finset α}
    (ran : starts.foldlM (finishing successors fuel []) ∅ = some after) (point : α) :
    point ∈ after ↔ Reached successors starts point := by
  obtain ⟨finishes, listed⟩ := foldlM_relates (Finishes successors (Reached successors starts))
    .refl (fun _ _ _ => .trans) (fun _ _ => Finishes.grows)
    (fun _ start member _ visit => (finishing_finishes visit).imp_left fun finishes =>
      finishes.mono fun _ path => ⟨start, member, path⟩) ran
  have finished := finishes.finished ⟨by simp, by simp, by simp⟩
  constructor
  · intro member
    exact (finishes.reached point member).resolve_left (Finset.notMem_empty _)
  · rintro ⟨start, member, path⟩
    exact finished.reached (listed start member) path

end

section

structure Marks (successors : α → Option (List α)) (origin : α → Prop)
    (before after : Finset α) : Prop where
  grows : before ⊆ after
  settled : ∀ point ∈ after, point ∈ before ∨ origin point ∧ (successors point).isSome ∧
    ∀ other, Successor successors point other → other ∈ after

theorem Marks.refl {origin : α → Prop} (set : Finset α) : Marks successors origin set set :=
  ⟨Finset.Subset.refl _, fun _ => .inl⟩

theorem Marks.trans {origin : α → Prop} {first second third : Finset α}
    (earlier : Marks successors origin first second)
    (later : Marks successors origin second third) : Marks successors origin first third := by
  refine ⟨earlier.grows.trans later.grows, fun point member => ?_⟩
  rcases later.settled point member with member | settled
  · refine (earlier.settled point member).imp_right fun ⟨origin, known, listed⟩ => ?_
    exact ⟨origin, known, fun other edge => later.grows (listed other edge)⟩
  · exact .inr settled

theorem Marks.mono {origin wider : α → Prop} {before after : Finset α}
    (marks : Marks successors origin before after) (covers : ∀ other, origin other → wider other) :
    Marks successors wider before after :=
  ⟨marks.grows, fun point member => (marks.settled point member).imp_right fun settled =>
    ⟨covers point settled.1, settled.2⟩⟩

theorem Marks.reached {origin : α → Prop} {after : Finset α}
    (marks : Marks successors origin ∅ after) {point other : α} (member : point ∈ after)
    (path : ReflTransGen (Successor successors) point other) : other ∈ after := by
  induction path with
  | refl => exact member
  | tail _ edge ih =>
      exact ((marks.settled _ ih).resolve_left (Finset.notMem_empty _)).2.2 _ edge

variable [DecidableEq α]

theorem marking_marks {fuel : Nat} {visited after : Finset α} {point : α}
    (ran : marking successors fuel visited point = some after) :
    Marks successors (ReflTransGen (Successor successors) point) visited after ∧
      point ∈ after := by
  induction fuel generalizing visited after point with
  | zero => cases ran
  | succ fuel ih =>
      rw [marking] at ran
      by_cases done : point ∈ visited
      · rw [if_pos done] at ran
        obtain rfl := Option.some.inj ran
        exact ⟨.refl _, done⟩
      · rw [if_neg done] at ran
        obtain ⟨others, listing, visits⟩ := Option.bind_eq_some_iff.mp ran
        obtain ⟨marks, listed⟩ := foldlM_relates
          (Marks successors (ReflTransGen (Successor successors) point))
          .refl (fun _ _ _ => .trans) (fun _ _ => Marks.grows)
          (fun before other member after visit =>
            (ih visit).imp_left fun marks => marks.mono fun last path =>
              .head ((successor_of_listing listing).mpr member) path) visits
        have marked := marks.grows (Finset.mem_insert_self point visited)
        refine ⟨⟨(Finset.subset_insert _ _).trans marks.grows, fun other member => ?_⟩, marked⟩
        rcases marks.settled other member with earlier | settled
        · rcases Finset.mem_insert.mp earlier with rfl | earlier
          · exact .inr ⟨.refl, by simp [listing], fun next edge =>
              listed next ((successor_of_listing listing).mp edge)⟩
          · exact .inl earlier
        · exact .inr settled

variable {bound : Finset α}

theorem exists_marking (bounded : ∀ point, (successors point).isSome → point ∈ bound)
    {fuel : Nat} {visited : Finset α} {point : α} (known : Known successors point)
    (inside : visited ⊆ bound) (room : bound.card < fuel + visited.card) :
    ∃ after, marking successors fuel visited point = some after ∧ visited ⊆ after ∧
      after ⊆ bound := by
  induction fuel generalizing visited point with
  | zero =>
      have short := Finset.card_le_card inside
      omega
  | succ fuel ih =>
      rw [marking]
      by_cases done : point ∈ visited
      · exact ⟨visited, if_pos done, Finset.Subset.refl _, inside⟩
      obtain ⟨others, listing⟩ := Option.isSome_iff_exists.mp (known point .refl)
      have wider : insert point visited ⊆ bound :=
        Finset.insert_subset (bounded point (by simp [listing])) inside
      obtain ⟨after, visits, grown, within⟩ := exists_foldlM
        (fun before => insert point visited ⊆ before ∧ before ⊆ bound)
        (fun before other member held => by
          have edge := (successor_of_listing listing).mpr member
          have larger := Finset.card_le_card held.1
          rw [Finset.card_insert_of_notMem done] at larger
          obtain ⟨after, ran, grown, within⟩ := ih
            (fun reached path => known reached (.head edge path)) held.2 (by omega)
          exact ⟨after, ran, held.1.trans grown, within⟩) ⟨Finset.Subset.refl _, wider⟩
      refine ⟨after, ?_, (Finset.subset_insert _ _).trans grown, within⟩
      rw [if_neg done, listing, Option.bind_some, visits]

theorem exists_mark (bounded : ∀ point, (successors point).isSome → point ∈ bound)
    {fuel : Nat} (room : bound.card < fuel) (starts : List α) :
    (∃ after, starts.foldlM (marking successors fuel) ∅ = some after) ↔
      ∀ start ∈ starts, Known successors start := by
  constructor
  · rintro ⟨after, ran⟩ start member reached path
    obtain ⟨marks, listed⟩ := foldlM_relates (Marks successors fun _ => True) .refl
      (fun _ _ _ => .trans) (fun _ _ => Marks.grows)
      (fun _ _ _ _ visit => (marking_marks visit).imp_left fun marks =>
        marks.mono fun _ _ => trivial) ran
    have here := marks.reached (listed start member) path
    exact ((marks.settled reached here).resolve_left (Finset.notMem_empty _)).2.1
  · intro all
    obtain ⟨after, ran, _⟩ := exists_foldlM (fun before => before ⊆ bound)
      (fun before start member inside => by
        obtain ⟨after, ran, _, within⟩ := exists_marking bounded (all start member) inside
          (Nat.lt_add_right before.card room)
        exact ⟨after, ran, within⟩) (Finset.empty_subset bound)
    exact ⟨after, ran⟩

theorem mem_mark {fuel : Nat} {starts : List α} {after : Finset α}
    (ran : starts.foldlM (marking successors fuel) ∅ = some after) (point : α) :
    point ∈ after ↔ Reached successors starts point := by
  obtain ⟨marks, listed⟩ := foldlM_relates (Marks successors (Reached successors starts))
    .refl (fun _ _ _ => .trans) (fun _ _ => Marks.grows)
    (fun _ start member _ visit => (marking_marks visit).imp_left fun marks =>
      marks.mono fun _ path => ⟨start, member, path⟩) ran
  constructor
  · intro member
    exact ((marks.settled point member).resolve_left (Finset.notMem_empty _)).1
  · rintro ⟨start, member, path⟩
    exact marks.reached (listed start member) path

end

section

variable {σ ε : Type} {seen : σ → Finset α} {failures : σ → List ε} {sound : σ → Prop}

/-- A search that goes on after a failure, beside the answer of one that stops at the first. -/
structure Follows (seen : σ → Finset α) (failures : σ → List ε) (sound : σ → Prop)
    (before after : σ) (answer : Option (Finset α)) : Prop where
  sound : sound after
  keeps : failures before <+: failures after
  quiet : failures after = failures before → answer = some (seen after)
  noisy : failures after ≠ failures before → answer = none

theorem Follows.refl {state : σ} (holds : sound state) :
    Follows seen failures sound state state (some (seen state)) :=
  ⟨holds, List.prefix_rfl, fun _ => rfl, fun changed => absurd rfl changed⟩

theorem Follows.failed {before after : σ} {failure : ε} (holds : sound after)
    (adds : failures after = failures before ++ [failure]) :
    Follows seen failures sound before after none :=
  ⟨holds, adds ▸ List.prefix_append _ _, fun same => by simp [adds] at same, fun _ => rfl⟩

theorem Follows.around {other : σ → Prop} {start before middle after : σ}
    {answer : Option (Finset α)} (follows : Follows seen failures sound before middle answer)
    (change : Finset α → Finset α) (holds : other after) (begins : failures before = failures start)
    (silent : failures after = failures middle) (sees : seen after = change (seen middle)) :
    Follows seen failures other start after (answer.map change) := by
  refine ⟨holds, begins ▸ silent ▸ follows.keeps, fun same => ?_, fun changed => ?_⟩
  · rw [follows.quiet (begins ▸ silent ▸ same), sees, Option.map_some]
  · rw [follows.noisy (begins ▸ silent ▸ changed), Option.map_none]

theorem foldl_follows {walk : σ → α → σ} {search : Finset α → α → Option (Finset α)}
    (points : List α) {state : σ}
    (each : ∀ state, ∀ point ∈ points, sound state →
      Follows seen failures sound state (walk state point) (search (seen state) point))
    (start : sound state) :
    Follows seen failures sound state (points.foldl walk state)
      (points.foldlM search (seen state)) := by
  induction points generalizing state with
  | nil => exact .refl start
  | cons point rest ih =>
      have first := each state point List.mem_cons_self start
      have later := ih (fun state other member => each state other (List.mem_cons_of_mem _ member))
        first.sound
      rw [List.foldl_cons, List.foldlM_cons]
      refine ⟨later.sound, first.keeps.trans later.keeps, fun same => ?_, fun changed => ?_⟩
      · have held : failures (walk state point) = failures state :=
          (first.keeps.eq_of_length_le (same ▸ later.keeps.length_le)).symm
        rw [first.quiet held]
        exact later.quiet (same.trans held.symm)
      · by_cases held : failures (walk state point) = failures state
        · rw [first.quiet held]
          exact later.noisy (held ▸ changed)
        · rw [first.noisy held]
          rfl

theorem foldl_keeps {walk : σ → α → σ} {search : Finset α → α → Option (Finset α)}
    {holds : σ → Prop} (points : List α) {state : σ}
    (each : ∀ state, ∀ point ∈ points, sound state →
      Follows seen failures sound state (walk state point) (search (seen state) point))
    (keeps : ∀ state, ∀ point ∈ points, sound state → holds state →
      failures (walk state point) = failures state → holds (walk state point))
    (start : sound state) (held : holds state)
    (quiet : failures (points.foldl walk state) = failures state) :
    holds (points.foldl walk state) := by
  induction points generalizing state with
  | nil => exact held
  | cons point rest ih =>
      have others := fun state other (member : other ∈ rest) =>
        each state other (List.mem_cons_of_mem point member)
      have first := each state point List.mem_cons_self start
      have later := foldl_follows rest others first.sound
      have silent : failures (walk state point) = failures state :=
        (first.keeps.eq_of_length_le (quiet ▸ later.keeps.length_le)).symm
      exact ih others (fun state other member => keeps state other (List.mem_cons_of_mem _ member))
        first.sound (keeps state point List.mem_cons_self start held silent)
        (quiet.trans silent.symm)

end

end EmuChef.DepthFirst
