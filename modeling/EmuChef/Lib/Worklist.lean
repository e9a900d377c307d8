import EmuChef.Lib.Dependency
import Mathlib.Algebra.BigOperators.Group.Finset.Basic
import Mathlib.Algebra.Order.BigOperators.Group.Finset

/-! Walks over a graph of successor lists: a worklist that visits every point once, and a search for
a cycle. -/

namespace EmuChef.Worklist

open Relation
open Dependency (not_cycle_of_acc)

variable {α σ : Type} {next : α → List α}

def Edge (next : α → List α) (point other : α) : Prop := other ∈ next point

def Reaches (next : α → List α) (point other : α) : Prop := ReflTransGen (Edge next) point other

theorem exists_exit (inside : α → Prop) {point last : α} (path : Reaches next point last)
    (starts : inside point) (ends : ¬ inside last) :
    ∃ here there, inside here ∧ ¬ inside there ∧ Edge next here there ∧ Reaches next there last := by
  induction path using ReflTransGen.head_induction_on with
  | refl => exact absurd starts ends
  | head edge rest ih =>
      rename_i here there
      by_cases stays : inside there
      · exact ih stays
      · exact ⟨here, there, starts, stays, edge, rest⟩

variable [DecidableEq α]

def explore (next : α → List α) (act : σ → α → σ) : Nat → List α → Finset α → σ → σ
  | 0, _, _, state => state
  | _ + 1, [], _, state => state
  | fuel + 1, point :: pending, visited, state =>
      if point ∈ visited then explore next act fuel pending visited state
      else explore next act fuel (pending ++ next point) (insert point visited) (act state point)

theorem explore_spec (act : σ → α → σ) (bound : Finset α) (closed : ∀ point ∉ bound, next point = [])
    (fuel : Nat) (pending : List α) (visited : Finset α) (state : σ)
    (enough : pending.length + ∑ point ∈ bound \ visited, (next point).length ≤ fuel)
    (waits : ∀ point ∈ visited, ∀ other ∈ next point, other ∈ visited ∨ other ∈ pending) :
    ∃ order : List α, explore next act fuel pending visited state = order.foldl act state ∧
      ∀ point, point ∈ order ↔
        point ∉ visited ∧ ∃ start ∈ pending, Reaches next start point := by
  induction fuel generalizing pending visited state with
  | zero =>
      obtain rfl : pending = [] := List.length_eq_zero_iff.mp (by omega)
      exact ⟨[], rfl, by simp⟩
  | succ fuel ih =>
      cases pending with
      | nil => exact ⟨[], rfl, by simp⟩
      | cons point pending =>
          rw [List.length_cons] at enough
          by_cases known : point ∈ visited
          · obtain ⟨order, same, covers⟩ := ih pending visited state (by omega) (by
              intro here seen there edge
              rcases waits here seen there edge with found | found
              · exact .inl found
              · rcases List.mem_cons.mp found with rfl | found
                · exact .inl known
                · exact .inr found)
            refine ⟨order, by rw [explore, if_pos known, same], ?_⟩
            intro other
            rw [covers]
            refine and_congr_right fun fresh => ?_
            constructor
            · rintro ⟨start, found, path⟩
              exact ⟨start, List.mem_cons_of_mem _ found, path⟩
            · rintro ⟨start, found, path⟩
              rcases List.mem_cons.mp found with rfl | found
              · obtain ⟨here, there, seen, unseen, edge, rest⟩ :=
                  exists_exit (· ∈ visited) path known fresh
                rcases waits here seen there edge with found | found
                · exact absurd found unseen
                · rcases List.mem_cons.mp found with rfl | found
                  · exact absurd known unseen
                  · exact ⟨there, found, rest⟩
              · exact ⟨start, found, path⟩
          · have room : (next point).length + ∑ other ∈ bound \ insert point visited,
                (next other).length ≤ ∑ other ∈ bound \ visited, (next other).length := by
              rw [Finset.sdiff_insert]
              by_cases inside : point ∈ bound
              · exact (Finset.add_sum_erase (bound \ visited) (fun other => (next other).length)
                  (Finset.mem_sdiff.mpr ⟨inside, known⟩)).le
              · rw [closed point inside, List.length_nil, Nat.zero_add]
                exact Finset.sum_le_sum_of_subset (Finset.erase_subset _ _)
            obtain ⟨order, same, covers⟩ := ih (pending ++ next point) (insert point visited)
              (act state point) (by rw [List.length_append]; omega) (by
                intro here seen there edge
                rcases Finset.mem_insert.mp seen with rfl | seen
                · exact .inr (List.mem_append_right _ edge)
                · rcases waits here seen there edge with found | found
                  · exact .inl (Finset.mem_insert_of_mem found)
                  · rcases List.mem_cons.mp found with rfl | found
                    · exact .inl (Finset.mem_insert_self _ _)
                    · exact .inr (List.mem_append_left _ found))
            refine ⟨point :: order, by rw [explore, if_neg known, same, List.foldl_cons], ?_⟩
            intro other
            rw [List.mem_cons, covers, Finset.mem_insert, not_or]
            constructor
            · rintro (rfl | ⟨⟨_, fresh⟩, start, found, path⟩)
              · exact ⟨known, other, List.mem_cons_self, .refl⟩
              · refine ⟨fresh, ?_⟩
                rcases List.mem_append.mp found with found | edge
                · exact ⟨start, List.mem_cons_of_mem _ found, path⟩
                · exact ⟨point, List.mem_cons_self, .head edge path⟩
            · rintro ⟨fresh, start, found, path⟩
              by_cases same : other = point
              · exact .inl same
              · refine .inr ⟨⟨same, fresh⟩, ?_⟩
                rcases List.mem_cons.mp found with rfl | found
                · rcases path.cases_head with rfl | ⟨there, edge, rest⟩
                  · exact absurd rfl same
                  · exact ⟨there, List.mem_append_right _ edge, rest⟩
                · exact ⟨start, List.mem_append_left _ found, path⟩

theorem explore_from (act : σ → α → σ) (bound : Finset α) (closed : ∀ point ∉ bound, next point = [])
    (start : α) (state : σ) {fuel : Nat} (enough : 1 + ∑ point ∈ bound, (next point).length ≤ fuel) :
    ∃ order : List α, explore next act fuel [start] ∅ state = order.foldl act state ∧
      ∀ point, point ∈ order ↔ Reaches next start point := by
  obtain ⟨order, same, covers⟩ := explore_spec act bound closed fuel [start] ∅ state
    (by simpa using enough) (by simp)
  exact ⟨order, same, by simpa using covers⟩

section

def visitEach (visit : Finset α → α → Bool × Finset α) : List α → Finset α → Bool × Finset α
  | [], visited => (false, visited)
  | point :: points, visited =>
      let answer := visit visited point
      if answer.1 then answer else visitEach visit points answer.2

/-- Whether a cycle can be reached, and the points whose visit ended without one. A point in
`visiting` has an open visit; one without a successor list is unknown. -/
def visitCycle (successors : α → Option (List α)) :
    Nat → List α → Finset α → α → Bool × Finset α
  | 0, _, visited, _ => (false, visited)
  | fuel + 1, visiting, visited, point =>
      if point ∈ visiting then (true, visited)
      else if point ∈ visited then (false, visited)
      else
        match successors point with
        | none => (false, visited)
        | some others =>
            let answer := visitEach (visitCycle successors fuel (point :: visiting)) others visited
            if answer.1 then answer else (false, insert point answer.2)

def reachVisit (successors : α → Option (List α)) (goal : α) :
    Nat → Finset α → α → Bool × Finset α
  | 0, visited, _ => (false, visited)
  | fuel + 1, visited, point =>
      if point = goal then (true, visited)
      else if point ∈ visited then (false, visited)
      else
        match successors point with
        | none => (false, insert point visited)
        | some others => visitEach (reachVisit successors goal fuel) others (insert point visited)

variable {visited : Finset α}

omit [DecidableEq α] in
theorem visitEach_found {visit : Finset α → α → Bool × Finset α} {points : List α}
    (found : (visitEach visit points visited).1 = true) :
    ∃ point ∈ points, ∃ seen, (visit seen point).1 = true := by
  induction points generalizing visited with
  | nil => exact nomatch found
  | cons point points ih =>
      rw [visitEach] at found
      by_cases first : (visit visited point).1 = true
      · exact ⟨point, List.mem_cons_self, visited, first⟩
      · obtain ⟨other, listed, seen, later⟩ := ih (by simpa [first] using found)
        exact ⟨other, List.mem_cons_of_mem _ listed, seen, later⟩

omit [DecidableEq α] in
theorem visitEach_ended {visit : Finset α → α → Bool × Finset α} {points : List α}
    (settled : Finset α → α → Prop) (invariant : Finset α → Prop)
    (grows : ∀ small large point, small ⊆ large → settled small point → settled large point)
    (step : ∀ seen, ∀ point ∈ points, invariant seen → (visit seen point).1 = false →
      invariant (visit seen point).2 ∧ seen ⊆ (visit seen point).2 ∧
        settled (visit seen point).2 point)
    (start : invariant visited) (ended : (visitEach visit points visited).1 = false) :
    invariant (visitEach visit points visited).2 ∧ visited ⊆ (visitEach visit points visited).2 ∧
      ∀ point ∈ points, settled (visitEach visit points visited).2 point := by
  induction points generalizing visited with
  | nil => exact ⟨start, Finset.Subset.refl _, by simp⟩
  | cons point points ih =>
      rw [visitEach] at ended ⊢
      by_cases first : (visit visited point).1 = true
      · simp [first] at ended
      · have quiet : (visit visited point).1 = false := by simpa using first
        simp only [quiet, Bool.false_eq_true, ↓reduceIte] at ended ⊢
        obtain ⟨held, wider, dealt⟩ := step visited point List.mem_cons_self start quiet
        obtain ⟨holds, larger, rest⟩ := ih
          (fun seen other listed => step seen other (List.mem_cons_of_mem _ listed)) held ended
        refine ⟨holds, wider.trans larger, ?_⟩
        intro other listed
        rcases List.mem_cons.mp listed with rfl | listed
        · exact grows _ _ _ larger dealt
        · exact rest other listed

def Successor (successors : α → Option (List α)) (point other : α) : Prop :=
  ∃ others, successors point = some others ∧ other ∈ others

def CycleReachable (successors : α → Option (List α)) (start : α) : Prop :=
  ∃ point, ReflTransGen (Successor successors) start point ∧
    TransGen (Successor successors) point point

/-- The graph in which nothing is known of one point. -/
def without (successors : α → Option (List α)) (former : α) : α → Option (List α) :=
  fun point => if point = former then none else successors point

/-- One of the points leads back to the former one, or into a cycle. -/
def LeadsBack (successors : α → Option (List α)) (former : α) (points : List α) : Prop :=
  ∃ point ∈ points, ReflTransGen (Successor successors) point former ∨
    CycleReachable successors point

variable {successors : α → Option (List α)}

theorem successor_without (former : α) {point other : α} (edge : Successor successors point other) :
    point = former ∨ Successor (without successors former) point other := by
  by_cases here : point = former
  · exact .inl here
  · obtain ⟨others, found, listed⟩ := edge
    exact .inr ⟨others, by rw [without, if_neg here, found], listed⟩

theorem successor_of_without {former point other : α}
    (edge : Successor (without successors former) point other) :
    Successor successors point other := by
  obtain ⟨others, found, listed⟩ := edge
  rw [without] at found
  split at found
  · cases found
  · exact ⟨others, found, listed⟩

/-- A path either avoids a point, or goes on from its last visit there. -/
theorem path_without (former : α) {start last : α}
    (path : ReflTransGen (Successor successors) start last) :
    ReflTransGen (Successor (without successors former)) start last ∨
      ReflTransGen (Successor (without successors former)) start former ∧
        ∃ other, Successor successors former other ∧
          ReflTransGen (Successor (without successors former)) other last := by
  induction path with
  | refl => exact .inl .refl
  | tail _ edge ih =>
      rcases successor_without former edge with rfl | kept
      · rcases ih with avoids | ⟨visits, _⟩
        · exact .inr ⟨avoids, _, edge, .refl⟩
        · exact .inr ⟨visits, _, edge, .refl⟩
      · rcases ih with avoids | ⟨visits, other, leaves, rest⟩
        · exact .inl (avoids.tail kept)
        · exact .inr ⟨visits, other, leaves, rest.tail kept⟩

theorem cycleReachable_without {former start : α} :
    CycleReachable successors start ↔ CycleReachable (without successors former) start ∨
      ReflTransGen (Successor (without successors former)) start former ∧
        LeadsBack (without successors former) former ((successors former).getD []) := by
  have leaving {other : α} (edge : Successor successors former other) :
      other ∈ (successors former).getD [] := by
    obtain ⟨others, found, listed⟩ := edge
    rwa [found]
  have wider {point last : α} (path : ReflTransGen (Successor (without successors former)) point last) :
      ReflTransGen (Successor successors) point last :=
    ReflTransGen.mono (fun _ _ => successor_of_without) _ _ path
  constructor
  · rintro ⟨point, path, cycle⟩
    obtain ⟨next, edge, back⟩ := TransGen.head'_iff.mp cycle
    -- The cycle avoids the point left out, or one of its followers leads back to it.
    have around : TransGen (Successor (without successors former)) point point ∨
        ∃ other, Successor successors former other ∧
          ReflTransGen (Successor (without successors former)) other former ∧
          ReflTransGen (Successor successors) point former := by
      rcases successor_without former edge with rfl | kept
      · rcases path_without point back with avoids | ⟨_, other, leaves, rest⟩
        · exact .inr ⟨next, edge, avoids, .refl⟩
        · exact .inr ⟨other, leaves, rest, .refl⟩
      · rcases path_without former back with avoids | ⟨visits, other, leaves, rest⟩
        · exact .inl (.head' kept avoids)
        · have returns := (rest.tail kept).trans visits
          exact .inr ⟨other, leaves, returns, wider (.head kept visits)⟩
    rcases around with loop | ⟨other, leaves, returns, reached⟩
    · rcases path_without former path with avoids | ⟨visits, other, leaves, rest⟩
      · exact .inl ⟨point, avoids, loop⟩
      · exact .inr ⟨visits, other, leaving leaves, .inr ⟨point, rest, loop⟩⟩
    · refine .inr ⟨?_, other, leaving leaves, .inl returns⟩
      rcases path_without former (path.trans reached) with avoids | ⟨visits, _⟩
      · exact avoids
      · exact visits
  · rintro (⟨point, path, cycle⟩ | ⟨path, other, listed, returns | ⟨point, rest, cycle⟩⟩)
    · exact ⟨point, wider path, TransGen.mono (fun _ _ => successor_of_without) _ _ cycle⟩
    all_goals
      have edge : Successor successors former other := by
        cases found : successors former with
        | none =>
            rw [found] at listed
            cases listed
        | some others => exact ⟨others, found, by rwa [found] at listed⟩
    · exact ⟨former, wider path, .head' edge (wider returns)⟩
    · exact ⟨point, (wider path).trans (.head edge (wider rest)),
        TransGen.mono (fun _ _ => successor_of_without) _ _ cycle⟩

variable {fuel : Nat}

theorem visitCycle_sound {visiting : List α} {point : α}
    (path : ∀ earlier ∈ visiting, TransGen (Successor successors) earlier point)
    (found : (visitCycle successors fuel visiting visited point).1 = true) :
    CycleReachable successors point := by
  induction fuel generalizing visiting visited point with
  | zero => exact nomatch found
  | succ fuel ih =>
      rw [visitCycle] at found
      by_cases loop : point ∈ visiting
      · exact ⟨point, .refl, path point loop⟩
      · rw [if_neg loop] at found
        by_cases known : point ∈ visited
        · rw [if_pos known] at found
          exact nomatch found
        · rw [if_neg known] at found
          split at found
          · exact nomatch found
          next others listing =>
            have inner : (visitEach (visitCycle successors fuel (point :: visiting)) others
                visited).1 = true := by
              by_contra quiet
              simp [quiet] at found
            obtain ⟨other, listed, seen, later⟩ := visitEach_found inner
            have edge : Successor successors point other := ⟨others, listing, listed⟩
            obtain ⟨last, reached, cycle⟩ := ih (by
              intro earlier member
              rcases List.mem_cons.mp member with rfl | member
              · exact .single edge
              · exact (path earlier member).tail edge) later
            exact ⟨last, .head edge reached, cycle⟩

theorem visitCycle_ended {bound : Finset α} (bounded : ∀ point, (successors point).isSome → point ∈ bound)
    {visiting : List α} {point : α}
    (distinct : visiting.Nodup) (inside : ∀ earlier ∈ visiting, earlier ∈ bound)
    (room : bound.card < fuel + visiting.length)
    (grounded : ∀ other ∈ visited, Acc (fun there here => Successor successors here there) other)
    (ended : (visitCycle successors fuel visiting visited point).1 = false) :
    (∀ other ∈ (visitCycle successors fuel visiting visited point).2,
      Acc (fun there here => Successor successors here there) other) ∧
    visited ⊆ (visitCycle successors fuel visiting visited point).2 ∧
    (point ∈ (visitCycle successors fuel visiting visited point).2 ∨ successors point = none) := by
  induction fuel generalizing visiting visited point with
  | zero =>
      have short : visiting.length ≤ bound.card := by
        rw [← List.toFinset_card_of_nodup distinct]
        exact Finset.card_le_card fun earlier listed => inside earlier (List.mem_toFinset.mp listed)
      omega
  | succ fuel ih =>
      rw [visitCycle] at ended ⊢
      by_cases loop : point ∈ visiting
      · simp [loop] at ended
      · rw [if_neg loop] at ended ⊢
        by_cases known : point ∈ visited
        · rw [if_pos known]
          exact ⟨grounded, Finset.Subset.refl _, .inl known⟩
        · rw [if_neg known] at ended ⊢
          cases listing : successors point with
          | none => exact ⟨grounded, Finset.Subset.refl _, .inr rfl⟩
          | some others =>
              simp only [listing] at ended
              dsimp only
              have quiet : (visitEach (visitCycle successors fuel (point :: visiting)) others
                  visited).1 = false := by
                by_contra noisy
                rw [Bool.not_eq_false] at noisy
                rw [if_pos noisy, noisy] at ended
                exact nomatch ended
              simp only [quiet, Bool.false_eq_true, ↓reduceIte]
              have belongs : point ∈ bound := bounded point (by simp [listing])
              obtain ⟨held, wider, settled⟩ := visitEach_ended
                (fun seen other => other ∈ seen ∨ successors other = none)
                (fun seen => ∀ other ∈ seen,
                  Acc (fun there here => Successor successors here there) other)
                (by
                  rintro small large other larger (member | unknown)
                  · exact .inl (larger member)
                  · exact .inr unknown)
                (by
                  intro seen other _ holds silent
                  exact ih (List.nodup_cons.mpr ⟨loop, distinct⟩) (by
                    intro earlier member
                    rcases List.mem_cons.mp member with rfl | member
                    · exact belongs
                    · exact inside earlier member) (by rw [List.length_cons]; omega) holds silent)
                grounded quiet
              refine ⟨?_, wider.trans (Finset.subset_insert _ _), .inl (Finset.mem_insert_self _ _)⟩
              intro other member
              rcases Finset.mem_insert.mp member with rfl | member
              · refine Acc.intro _ ?_
                rintro there ⟨found, same, listed⟩
                obtain rfl : others = found := Option.some.inj (listing.symm.trans same)
                rcases settled there listed with finished | unknown
                · exact held there finished
                · refine Acc.intro _ ?_
                  rintro last ⟨others, impossible, _⟩
                  rw [unknown] at impossible
                  exact nomatch impossible
              · exact held other member

omit [DecidableEq α] in
theorem not_cycleReachable_of_acc {start : α}
    (grounded : Acc (fun there here => Successor successors here there) start) :
    ¬ CycleReachable successors start := by
  rintro ⟨point, path, cycle⟩
  induction path using ReflTransGen.head_induction_on with
  | refl => exact not_cycle_of_acc grounded cycle
  | head edge _ ih => exact ih (grounded.inv edge)

theorem reachVisit_sound {goal : α} {point : α}
    (met : (reachVisit successors goal fuel visited point).1 = true) :
    ReflTransGen (Successor successors) point goal := by
  induction fuel generalizing visited point with
  | zero => exact nomatch met
  | succ fuel ih =>
      rw [reachVisit] at met
      by_cases here : point = goal
      · exact here ▸ .refl
      · rw [if_neg here] at met
        by_cases known : point ∈ visited
        · rw [if_pos known] at met
          exact nomatch met
        · rw [if_neg known] at met
          cases listing : successors point with
          | none => simp [listing] at met
          | some others =>
              simp only [listing] at met
              obtain ⟨other, listed, seen, later⟩ := visitEach_found met
              exact .head ⟨others, listing, listed⟩ (ih later)

theorem reachVisit_missed {bound : Finset α} (bounded : ∀ point, (successors point).isSome → point ∈ bound)
    {goal : α} {point : α}
    (room : bound.card < fuel + (visited ∩ bound).card)
    (missed : (reachVisit successors goal fuel visited point).1 = false) :
    let after := (reachVisit successors goal fuel visited point).2
    visited ⊆ after ∧ point ∈ after ∧ ∀ other ∈ after, other ∉ visited →
      other ≠ goal ∧ ∀ next, Successor successors other next → next ∈ after := by
  induction fuel generalizing visited point with
  | zero =>
      have small := Finset.card_le_card (@Finset.inter_subset_right _ _ visited bound)
      omega
  | succ fuel ih =>
      rw [reachVisit] at missed ⊢
      by_cases here : point = goal
      · simp [here] at missed
      · rw [if_neg here] at missed ⊢
        by_cases known : point ∈ visited
        · rw [if_pos known]
          exact ⟨Finset.Subset.refl _, known, fun other inside fresh => absurd inside fresh⟩
        · rw [if_neg known] at missed ⊢
          cases listing : successors point with
          | none =>
              refine ⟨Finset.subset_insert _ _, Finset.mem_insert_self _ _, ?_⟩
              intro other inside fresh
              obtain rfl : other = point := by simpa [fresh] using inside
              refine ⟨here, ?_⟩
              rintro next ⟨others, impossible, _⟩
              rw [listing] at impossible
              exact nomatch impossible
          | some others =>
              simp only [listing] at missed ⊢
              have belongs : point ∈ bound := bounded point (by simp [listing])
              have grown : (insert point visited ∩ bound).card = (visited ∩ bound).card + 1 := by
                rw [Finset.insert_inter_of_mem belongs,
                  Finset.card_insert_of_notMem (fun inside => known (Finset.mem_inter.mp inside).1)]
              obtain ⟨closed, wider, listed⟩ := visitEach_ended
                (fun seen other => other ∈ seen)
                (fun seen => insert point visited ⊆ seen ∧ ∀ other ∈ seen, other ∉ insert point visited →
                  other ≠ goal ∧ ∀ next, Successor successors other next → next ∈ seen)
                (fun small large other larger inside => larger inside)
                (by
                  intro seen other _ holds silent
                  have more := Finset.card_le_card
                    (Finset.inter_subset_inter_right (u := bound) holds.1)
                  obtain ⟨larger, visitedOther, settled⟩ := ih (by omega) silent
                  refine ⟨⟨holds.1.trans larger, ?_⟩, larger, visitedOther⟩
                  intro last inside fresh
                  by_cases before : last ∈ seen
                  · obtain ⟨apart, nexts⟩ := holds.2 last before fresh
                    exact ⟨apart, fun next edge => larger (nexts next edge)⟩
                  · exact settled last inside before)
                ⟨Finset.Subset.refl _, fun other inside fresh => absurd inside fresh⟩ missed
              refine ⟨(Finset.subset_insert _ _).trans wider,
                wider (Finset.mem_insert_self _ _), ?_⟩
              intro other inside fresh
              by_cases same : other = point
              · subst same
                refine ⟨here, ?_⟩
                rintro next ⟨found, same, member⟩
                obtain rfl : others = found := Option.some.inj (listing.symm.trans same)
                exact listed next member
              · exact closed.2 other inside (by simp [same, fresh])

theorem visitEach_reachVisit_iff {bound : Finset α}
    (bounded : ∀ point, (successors point).isSome → point ∈ bound) {goal : α}
    (room : bound.card < fuel) {points : List α} :
    (visitEach (reachVisit successors goal fuel) points ∅).1 = true ↔
      ∃ point ∈ points, ReflTransGen (Successor successors) point goal := by
  constructor
  · intro met
    obtain ⟨point, listed, _, found⟩ := visitEach_found met
    exact ⟨point, listed, reachVisit_sound found⟩
  · rintro ⟨point, listed, path⟩
    by_contra missed
    have quiet : (visitEach (reachVisit successors goal fuel) points ∅).1 = false := by
      simpa using missed
    obtain ⟨closed, _, visited⟩ := visitEach_ended
      (fun seen other => other ∈ seen)
      (fun seen => ∀ other ∈ seen, other ≠ goal ∧ ∀ next, Successor successors other next → next ∈ seen)
      (fun small large other larger inside => larger inside)
      (by
        intro seen other _ holds silent
        obtain ⟨larger, visitedOther, settled⟩ := reachVisit_missed bounded (by omega) silent
        refine ⟨?_, larger, visitedOther⟩
        intro last inside
        by_cases before : last ∈ seen
        · obtain ⟨apart, nexts⟩ := holds last before
          exact ⟨apart, fun next edge => larger (nexts next edge)⟩
        · exact settled last inside before)
      (by simp) quiet
    have reached : ∀ last, ReflTransGen (Successor successors) point last →
        last ∈ (visitEach (reachVisit successors goal fuel) points ∅).2 := by
      intro last path
      induction path with
      | refl => exact visited point listed
      | tail _ edge ih => exact (closed _ ih).2 _ edge
    exact (closed goal (reached goal path)).1 rfl

/-- With fuel beyond the bound the walk meets a cycle exactly if one can be reached. -/
theorem visitCycle_iff {bound : Finset α} (bounded : ∀ point, (successors point).isSome → point ∈ bound)
    (start : α) (room : bound.card < fuel) :
    (visitCycle successors fuel [] ∅ start).1 = true ↔ CycleReachable successors start := by
  constructor
  · exact visitCycle_sound (by simp)
  · intro cyclic
    by_contra missed
    have quiet : (visitCycle successors fuel [] ∅ start).1 = false := by simpa using missed
    obtain ⟨held, _, finished⟩ := visitCycle_ended bounded List.nodup_nil (by simp)
      (by simpa using room) (by simp) quiet
    refine not_cycleReachable_of_acc ?_ cyclic
    rcases finished with member | unknown
    · exact held start member
    · refine Acc.intro _ ?_
      rintro last ⟨others, impossible, _⟩
      rw [unknown] at impossible
      exact nomatch impossible

end

end EmuChef.Worklist
