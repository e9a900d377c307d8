import EmuChef.Lib.Kahn
import Mathlib.Data.Fintype.Order
import Mathlib.Order.WellFounded

/-! When counting dependencies orders a table that may list a point again. -/

namespace EmuChef.Kahn

open Relation (TransGen)

variable {α : Type} [DecidableEq α]

def lastRow (table : List (α × List α)) (point : α) : Option (List α) :=
  (OrderedMap.ofList table).get? point

variable {table : List (α × List α)} {point : α}

theorem demand_eq {last : List α} (held : lastRow table point = some last) :
    ∃ before rest, table = before ++ (point, last) :: rest ∧ point ∉ rest.map Prod.fst ∧
      demand table point = demand before point ++ last := by
  obtain ⟨before, rest, rfl, absent⟩ := OrderedMap.exists_last_of_get?_ofList held
  have none : rest.filter (fun entry => entry.1 = point) = [] := by
    refine List.filter_eq_nil_iff.mpr fun entry member => ?_
    rw [decide_eq_true_eq]
    rintro rfl
    exact absent (List.mem_map_of_mem member)
  exact ⟨before, rest, rfl, absent, by simp [demand, none]⟩

theorem lastRow_isSome : (lastRow table point).isSome = true ↔ point ∈ table.map Prod.fst := by
  rw [lastRow, OrderedMap.get?_isSome, OrderedMap.mem_keys_ofList]

theorem counts_get? : (counts table).get? point = (lastRow table point).map List.length := by
  cases held : lastRow table point with
  | none =>
      have absent : point ∉ table.map Prod.fst := by
        rw [← lastRow_isSome, held]
        simp
      refine OrderedMap.get?_eq_none.mpr fun member => absent ?_
      simpa [counts, OrderedMap.mem_keys_ofList] using member
  | some last =>
      obtain ⟨before, rest, rfl, absent, _⟩ := demand_eq held
      rw [counts, List.map_append, List.map_cons, Option.map_some]
      exact OrderedMap.get?_ofList_last (by simpa using absent)

theorem mem_demand {point dependency : α} : dependency ∈ demand table point ↔
    ∃ dependencies, (point, dependencies) ∈ table ∧ dependency ∈ dependencies := by
  simp only [demand, List.mem_flatMap, List.mem_filter, decide_eq_true_eq]
  constructor
  · rintro ⟨entry, ⟨listed, rfl⟩, member⟩
    exact ⟨entry.2, listed, member⟩
  · rintro ⟨dependencies, listed, member⟩
    exact ⟨(point, dependencies), ⟨listed, rfl⟩, member⟩

/-- A point's count and the releases still to come add up; a point without open dependencies waits
or has passed. -/
structure Balanced (table : List (α × List α)) (progress : Progress α) : Prop where
  counted : ∀ point last, lastRow table point = some last →
    ∃ left, progress.remaining.get? point = some left ∧
      left + (demand table point).length =
        last.length + openCount progress.order (demand table point)
  complete : ∀ point, progress.remaining.get? point = some 0 →
    point ∈ progress.order ++ progress.queue

theorem openCount_nil (dependencies : List α) : openCount [] dependencies = dependencies.length := by
  simp [openCount]

theorem balanced_start : Balanced table (start table) where
  counted := by
    intro point last held
    refine ⟨last.length, ?_, ?_⟩
    · rw [start, counts_get?, held, Option.map_some]
    · rw [start, openCount_nil]
  complete := by
    intro point none
    simp only [start, ready, List.nil_append, mem_sorted, List.mem_map, List.mem_filter,
      decide_eq_true_eq]
    exact ⟨(point, 0), ⟨OrderedMap.get?_eq_some.mp none, rfl⟩, rfl⟩

theorem complete_foldlM {settled points queue : List α} {before : OrderedMap α Nat}
    {next : OrderedMap α Nat × List α}
    (complete : ∀ point, before.get? point = some 0 → point ∈ settled ++ queue)
    (folded : points.foldlM release (before, queue) = .ok next) :
    ∀ point, next.1.get? point = some 0 → point ∈ settled ++ next.2 := by
  refine Checks.foldlM_invariant (fun _ found => ∀ point, found.1.get? point = some 0 →
    point ∈ settled ++ found.2) complete ?_ folded
  intro _ released _ found next _ held stepped point none
  rw [release] at stepped
  cases count : found.1.get? released with
  | none =>
      simp only [count] at stepped
      cases Except.ok.inj stepped
      exact held point none
  | some amount =>
      cases amount with
      | zero => simp [count] at stepped
      | succ left =>
          simp only [count] at stepped
          cases Except.ok.inj stepped
          by_cases same : point = released
          · subst same
            obtain rfl : left = 0 := by simpa using none
            simp
          · have waits := held point (by simpa [same] using none)
            by_cases last : left = 0
            · simp only [last, ↓reduceIte, ← List.append_assoc]
              exact List.mem_append_left _ waits
            · simpa [last] using waits

theorem Balanced.advance {progress next : Progress α} {queue : List α}
    (sound : Sound table progress) (held : Balanced table progress)
    (waiting : progress.queue = point :: queue)
    (advanced : advance table progress point queue = .ok next) : Balanced table next := by
  rw [Kahn.advance, Checks.bind_eq_ok] at advanced
  obtain ⟨found, folded, built⟩ := advanced
  cases Except.ok.inj built
  have queued : progress.order ++ progress.queue = progress.order ++ [point] ++ queue := by
    simp [waiting]
  have released := released_foldlM (queued ▸ sound.distinct) (queued ▸ sound.closed) folded
  refine ⟨fun other last row => ?_, ?_⟩
  · obtain ⟨left, count, balance⟩ := held.counted other last row
    obtain ⟨after, same, total⟩ := released.counted other left count
    have sorts : (sorted table (dependents table point)).count other =
        (dependents table point).count other := (List.perm_insertionSort _ _).count_eq _
    rw [sorts, count_dependents_demand] at total
    rw [openCount_append (sound.fresh waiting)] at balance
    refine ⟨after, same, ?_⟩
    dsimp only
    omega
  · exact complete_foldlM (fun other none => queued ▸ held.complete other none) folded

theorem exists_foldlM_release {points : List α} {found : OrderedMap α Nat × List α}
    (enough : ∀ point ∈ points, ∀ left, found.1.get? point = some left →
      points.count point ≤ left) : ∃ next, points.foldlM release found = .ok next := by
  induction points generalizing found with
  | nil => exact ⟨found, rfl⟩
  | cons point rest ih =>
      rw [List.foldlM_cons]
      cases count : found.1.get? point with
      | none =>
          have kept : release found point = .ok found := by rw [release, count]
          rw [kept]
          refine ih fun other member left known => ?_
          have apart : point ≠ other := by
            rintro rfl
            simp [count] at known
          simpa [List.count_cons, apart] using enough other (List.mem_cons_of_mem _ member) left known
      | some amount =>
          have bound := enough point List.mem_cons_self amount count
          rw [List.count_cons_self] at bound
          obtain ⟨left, rfl⟩ := Nat.exists_eq_succ_of_ne_zero (by omega : amount ≠ 0)
          have taken : release found point = .ok (found.1.insert point left,
              if left = 0 then found.2 ++ [point] else found.2) := by rw [release, count]
          rw [taken]
          refine ih fun other member amount known => ?_
          by_cases same : other = point
          · subst same
            obtain rfl : left = amount := by simpa using known
            omega
          · have apart : point ≠ other := Ne.symm same
            have known : found.1.get? other = some amount := by simpa [same] using known
            simpa [List.count_cons, apart] using
              enough other (List.mem_cons_of_mem _ member) amount known

def Thrifty (table : List (α × List α)) : Prop :=
  ∀ point last, lastRow table point = some last → (demand table point).length = last.length

theorem demand_append {before after : List (α × List α)} :
    demand (before ++ after) point = demand before point ++ demand after point := by
  simp [demand]

theorem thrifty_iff : Thrifty table ↔ ∀ before entry after, table = before ++ entry :: after →
    entry.1 ∈ after.map Prod.fst → entry.2 = [] := by
  constructor
  · rintro thrifty before entry after rfl again
    obtain ⟨last, row⟩ := Option.isSome_iff_exists.mp (lastRow_isSome.mpr again)
    obtain ⟨early, rest, rfl, absent, demands⟩ := demand_eq row
    have whole : lastRow (before ++ entry :: (early ++ (entry.1, last) :: rest)) entry.1 = some last := by
      have split : before ++ entry :: (early ++ (entry.1, last) :: rest) =
          (before ++ entry :: early) ++ (entry.1, last) :: rest := by simp
      rw [split]
      exact OrderedMap.get?_ofList_last absent
    have total := thrifty entry.1 last whole
    have single : demand (entry :: (early ++ (entry.1, last) :: rest)) entry.1 =
        entry.2 ++ demand (early ++ (entry.1, last) :: rest) entry.1 := by simp [demand]
    rw [demand_append, single, demands] at total
    simp only [List.length_append] at total
    exact List.length_eq_zero_iff.mp (by omega)
  · intro free point last row
    obtain ⟨before, rest, rfl, _, demands⟩ := demand_eq row
    have none : demand before point = [] := by
      refine List.eq_nil_iff_forall_not_mem.mpr fun dependency member => ?_
      obtain ⟨dependencies, listed, among⟩ := mem_demand.mp member
      obtain ⟨early, late, rfl⟩ := List.append_of_mem listed
      obtain rfl : dependencies = [] := free early (point, dependencies)
        (late ++ (point, last) :: rest) (by simp) (by simp)
      cases among
    rw [demands, none, List.nil_append]

theorem exists_advance {progress : Progress α} {queue : List α}
    (thrifty : Thrifty table) (sound : Sound table progress) (held : Balanced table progress)
    (waiting : progress.queue = point :: queue) :
    ∃ next, advance table progress point queue = .ok next := by
  obtain ⟨found, folded⟩ : ∃ found, (sorted table (dependents table point)).foldlM release
      (progress.remaining, queue) = .ok found := by
    refine exists_foldlM_release fun other member left known => ?_
    have listed : (lastRow table other).isSome := by
      obtain ⟨dependencies, row, _⟩ := mem_dependents.mp (mem_sorted.mp member)
      exact lastRow_isSome.mpr (List.mem_map_of_mem row)
    obtain ⟨last, row⟩ := Option.isSome_iff_exists.mp listed
    obtain ⟨counted, same, balance⟩ := held.counted other last row
    obtain rfl : counted = left := Option.some.inj (same.symm.trans known)
    have sorts : (sorted table (dependents table point)).count other =
        (dependents table point).count other := (List.perm_insertionSort _ _).count_eq _
    rw [sorts, count_dependents_demand]
    rw [thrifty other last row, openCount_append (sound.fresh waiting)] at balance
    omega
  exact ⟨_, Checks.bind_eq_ok.mpr ⟨found, folded, rfl⟩⟩

theorem exists_drain {fuel : Nat} {progress : Progress α} (thrifty : Thrifty table)
    (sound : Sound table progress) (held : Balanced table progress) :
    ∃ final, drain table fuel progress = .ok final := by
  induction fuel generalizing progress with
  | zero => exact ⟨progress, rfl⟩
  | succ fuel ih =>
      rw [drain]
      cases waiting : progress.queue with
      | nil => exact ⟨progress, rfl⟩
      | cons point queue =>
          obtain ⟨next, advanced⟩ := exists_advance thrifty sound held waiting
          obtain ⟨final, drained⟩ :=
            ih (sound.advance waiting advanced) (held.advance sound waiting advanced)
          exact ⟨final, Checks.bind_eq_ok.mpr ⟨next, advanced, drained⟩⟩

theorem drain_keeps (holds : Progress α → Prop)
    (kept : ∀ {progress next point queue}, holds progress → progress.queue = point :: queue →
      advance table progress point queue = .ok next → holds next)
    {fuel : Nat} {progress final : Progress α} (held : holds progress)
    (drained : drain table fuel progress = .ok final) : holds final := by
  induction fuel generalizing progress with
  | zero =>
      cases Except.ok.inj drained
      exact held
  | succ fuel ih =>
      rw [drain] at drained
      cases waiting : progress.queue with
      | nil =>
          simp only [waiting] at drained
          cases Except.ok.inj drained
          exact held
      | cons point queue =>
          simp only [waiting] at drained
          obtain ⟨next, advanced, rest⟩ := Checks.bind_eq_ok.mp drained
          exact ih (kept held waiting advanced) rest

theorem drain_balanced {fuel : Nat} {progress final : Progress α} (sound : Sound table progress)
    (held : Balanced table progress) (drained : drain table fuel progress = .ok final) :
    Balanced table final := by
  have both := drain_keeps (fun progress => Sound table progress ∧ Balanced table progress)
    (fun before waiting advanced => ⟨before.1.advance waiting advanced,
      before.2.advance before.1 waiting advanced⟩) ⟨sound, held⟩ drained
  exact both.2

theorem order_balanced {points : List α} (ordered : order table = .ok points) :
    ∃ progress, Sound table progress ∧ Balanced table progress ∧ progress.queue = [] ∧
      progress.order = points := by
  obtain ⟨final, drained, same⟩ := Checks.bind_eq_ok.mp ordered
  cases Except.ok.inj same
  obtain ⟨sound, empty⟩ := drain_sound sound_start (by simp [start]) drained
  exact ⟨final, sound, drain_balanced sound_start balanced_start drained, empty, rfl⟩

theorem exists_order (thrifty : Thrifty table) : ∃ points, order table = .ok points := by
  obtain ⟨final, drained⟩ :=
    @exists_drain α _ table (table.length + 1) _ thrifty sound_start balanced_start
  exact ⟨final.order, Checks.bind_eq_ok.mpr ⟨final, drained, rfl⟩⟩

section

def places (table : List (α × List α)) : OrderedMap α Nat :=
  .ofList (table.zipIdx.map fun entry => (entry.1.1, entry.2))

/-- The points whose places an ordering looks up: those that start without dependencies, and those
that a point releases. -/
def LooksUp (table : List (α × List α)) (point : α) : Prop :=
  (counts table).get? point = some 0 ∨ ∃ passed, point ∈ dependents table passed

omit [DecidableEq α] in
theorem places_ids : (table.zipIdx.map fun entry => (entry.1.1, entry.2)).map Prod.fst =
    table.map Prod.fst := by
  rw [List.map_map]
  conv_rhs => rw [← List.zipIdx_map_fst 0 table, List.map_map]
  rfl

theorem place_of_looksUp {point : α} (looked : LooksUp table point) :
    ((places table).get? point).isSome = true := by
  rw [OrderedMap.get?_isSome, places, OrderedMap.mem_keys_ofList, places_ids]
  rcases looked with none | ⟨passed, released⟩
  · rw [counts_get?, Option.map_eq_some_iff] at none
    obtain ⟨last, row, _⟩ := none
    exact lastRow_isSome.mp (by rw [row, Option.isSome_some])
  · obtain ⟨dependencies, row, _⟩ := mem_dependents.mp released
    exact List.mem_map_of_mem row

end

section

def LastDepends (table : List (α × List α)) (dependency point : α) : Prop :=
  ∃ last, lastRow table point = some last ∧ dependency ∈ last

def Closed (table : List (α × List α)) : Prop :=
  ∀ entry ∈ table, ∀ dependency ∈ entry.2, dependency ∈ table.map Prod.fst

theorem LastDepends.listed {dependency point : α} (depends : LastDepends table dependency point) :
    point ∈ table.map Prod.fst := by
  obtain ⟨last, row, _⟩ := depends
  exact lastRow_isSome.mp (by rw [row, Option.isSome_some])

omit [DecidableEq α] in
theorem not_transGen_self_of_acc {depends : α → α → Prop} {point : α} (grounded : Acc depends point) :
    ¬ TransGen depends point point := by
  have closure := grounded.transGen
  clear grounded
  induction closure with
  | intro point _ ih => exact fun loop => ih point loop loop

omit [DecidableEq α] in
theorem acc_of_acyclic {depends : α → α → Prop} (bound : Finset α)
    (inside : ∀ dependency point, depends dependency point → dependency ∈ bound)
    (acyclic : ∀ point, ¬ TransGen depends point point) (point : α) : Acc depends point := by
  have founded : WellFounded fun first second : bound => TransGen depends first.1 second.1 :=
    @Finite.wellFounded_of_trans_of_irrefl _ _ _ ⟨fun _ _ _ => TransGen.trans⟩
      ⟨fun first => acyclic first.1⟩
  have grounded : ∀ point : bound, Acc depends point.1 := by
    intro point
    induction founded.apply point with
    | intro point _ ih =>
        exact Acc.intro _ fun dependency edge =>
          ih ⟨dependency, inside dependency point.1 edge⟩ (TransGen.single edge)
  exact Acc.intro _ fun dependency edge => grounded ⟨dependency, inside dependency point edge⟩

variable {points : List α}

theorem mem_order_of_acc (closed : Closed table) (ordered : order table = .ok points) {point : α}
    (grounded : Acc (LastDepends table) point) (listed : point ∈ table.map Prod.fst) :
    point ∈ points := by
  obtain ⟨progress, _, held, empty, rfl⟩ := order_balanced ordered
  induction grounded with
  | intro point _ ih =>
      obtain ⟨last, row⟩ := Option.isSome_iff_exists.mp (lastRow_isSome.mpr listed)
      obtain ⟨left, same, balance⟩ := held.counted point last row
      obtain ⟨before, rest, split, _, demands⟩ := demand_eq row
      have passed : openCount progress.order last = 0 := by
        refine List.countP_eq_zero.mpr fun dependency member => ?_
        have known := closed (point, last) (by simp [split]) dependency member
        simpa using ih dependency ⟨last, row, member⟩ known
      have bounded : openCount progress.order (demand before point) ≤ (demand before point).length :=
        List.countP_le_length
      rw [demands, List.length_append, openCount, List.countP_append] at balance
      rw [openCount] at passed bounded
      obtain rfl : left = 0 := by omega
      simpa [empty] using held.complete point same

theorem thrifty_of_order (closed : Closed table) (ordered : order table = .ok points)
    (grounded : ∀ point, Acc (LastDepends table) point) : Thrifty table := by
  intro point last row
  have passes := fun point => mem_order_of_acc closed ordered (grounded point)
  obtain ⟨progress, _, held, _, rfl⟩ := order_balanced ordered
  obtain ⟨left, _, balance⟩ := held.counted point last row
  obtain ⟨before, rest, split, _, demands⟩ := demand_eq row
  have passed : openCount progress.order (demand table point) = 0 := by
    refine List.countP_eq_zero.mpr fun dependency member => ?_
    obtain ⟨dependencies, listed, among⟩ := mem_demand.mp member
    simpa using passes dependency (closed _ listed dependency among)
  rw [passed] at balance
  rw [demands, List.length_append] at balance ⊢
  omega

theorem exists_order_iff (closed : Closed table) (grounded : ∀ point, Acc (LastDepends table) point) :
    (∃ points, order table = .ok points) ↔ Thrifty table := by
  constructor
  · rintro ⟨points, ordered⟩
    exact thrifty_of_order closed ordered grounded
  · exact exists_order

section

variable (distinct : (table.map Prod.fst).Nodup)

include distinct

theorem lastRow_eq_some {point : α} {dependencies : List α} :
    lastRow table point = some dependencies ↔ (point, dependencies) ∈ table :=
  OrderedMap.get?_ofList distinct

theorem thrifty_of_nodup : Thrifty table := by
  refine thrifty_iff.mpr ?_
  rintro before entry after rfl again
  rw [List.map_append, List.map_cons] at distinct
  exact absurd again (List.nodup_cons.mp (List.nodup_append.mp distinct).2.1).1

theorem acc_of_order (ordered : order table = .ok points) (long : points.length = table.length)
    {point : α} (passed : point ∈ points) : Acc (LastDepends table) point := by
  suffices general : ∀ size before point after, before.length = size →
      points = before ++ point :: after → Acc (LastDepends table) point by
    obtain ⟨before, after, split⟩ := List.append_of_mem passed
    exact general _ before point after rfl split
  intro size
  induction size using Nat.strong_induction_on with
  | h size ih =>
      rintro before point after rfl split
      refine Acc.intro _ ?_
      rintro dependency ⟨last, row, member⟩
      have listed := (lastRow_eq_some distinct).mp row
      have earlier := dependency_before ordered long split listed dependency member
      obtain ⟨first, later, rfl⟩ := List.append_of_mem earlier
      refine ih first.length (by simp) first dependency (later ++ point :: after) rfl ?_
      rw [split, List.append_assoc, List.cons_append]

/-- A closed table is ordered whole exactly if no point depends on itself. -/
theorem length_eq_iff_acyclic (closed : Closed table) (ordered : order table = .ok points) :
    points.length = table.length ↔ ¬ ∃ point, TransGen (LastDepends table) point point := by
  constructor
  · rintro long ⟨point, loop⟩
    have listed : point ∈ table.map Prod.fst := by
      obtain ⟨_, _, edge⟩ := TransGen.tail'_iff.mp loop
      exact edge.listed
    have passed := (perm_of_order ordered long).mem_iff.mpr listed
    exact not_transGen_self_of_acc (acc_of_order distinct ordered long passed) loop
  · intro acyclic
    have inside : ∀ dependency point, LastDepends table dependency point →
        dependency ∈ (table.map Prod.fst).toFinset := by
      rintro dependency point ⟨last, row, member⟩
      have listed := (lastRow_eq_some distinct).mp row
      exact List.mem_toFinset.mpr (closed _ listed dependency member)
    have grounded := acc_of_acyclic _ inside fun point loop => acyclic ⟨point, loop⟩
    have whole : table.map Prod.fst ⊆ points :=
      fun point listed => mem_order_of_acc closed ordered (grounded point) listed
    have large := (List.subperm_of_subset distinct whole).length_le
    obtain ⟨progress, sound, _, rfl⟩ := order_sound ordered
    rw [List.length_map] at large
    exact Nat.le_antisymm sound.length_le large

end

end

section

variable {first second : α}

omit [DecidableEq α] in
theorem pair_sublist_of_pairwise {points : List α} {place : α → Nat}
    (ascending : points.Pairwise fun earlier later => place earlier ≤ place later)
    (before : place first < place second) (firstIn : first ∈ points) (secondIn : second ∈ points) :
    [first, second].Sublist points := by
  induction points with
  | nil => cases firstIn
  | cons point rest ih =>
      obtain ⟨least, ascending⟩ := List.pairwise_cons.mp ascending
      rcases List.mem_cons.mp firstIn with rfl | firstLater
      · rcases List.mem_cons.mp secondIn with rfl | secondLater
        · exact absurd before (lt_irrefl _)
        · exact (List.singleton_sublist.mpr secondLater).cons_cons first
      · rcases List.mem_cons.mp secondIn with rfl | secondLater
        · exact absurd (least first firstLater) (not_le.mpr before)
        · exact (ih ascending firstLater secondLater).cons point

theorem pair_sublist_sorted {points : List α} (before : position table first < position table second)
    (firstIn : first ∈ points) (secondIn : second ∈ points) :
    [first, second].Sublist (sorted table points) :=
  pair_sublist_of_pairwise (List.pairwise_insertionSort _ points) before (mem_sorted.mpr firstIn)
    (mem_sorted.mpr secondIn)

theorem position_eq (distinct : (table.map Prod.fst).Nodup) {before after : List (α × List α)}
    {entry : α × List α} (split : table = before ++ entry :: after) :
    position table entry.1 = before.length := by
  have listed : (entry.1, before.length) ∈ table.zipIdx.map fun entry => (entry.1.1, entry.2) :=
    List.mem_map.mpr ⟨(entry, before.length), by simp [split, List.zipIdx_append], rfl⟩
  rw [← places_ids] at distinct
  have held := (OrderedMap.get?_ofList distinct).mpr listed
  rw [position, held, Option.getD_some]

theorem queue_of_foldlM {points : List α} {found next : OrderedMap α Nat × List α}
    (distinct : points.Nodup) (folded : points.foldlM release found = .ok next) :
    next.2 = found.2 ++ points.filter fun point => found.1.get? point = some 1 := by
  induction points generalizing found with
  | nil =>
      cases Except.ok.inj folded
      simp
  | cons point rest ih =>
      obtain ⟨fresh, distinct⟩ := List.nodup_cons.mp distinct
      rw [List.foldlM_cons] at folded
      obtain ⟨middle, released, folded⟩ := Checks.bind_eq_ok.mp folded
      rw [ih distinct folded]
      rw [release] at released
      cases count : found.1.get? point with
      | none =>
          simp only [count] at released
          cases Except.ok.inj released
          simp [count]
      | some amount =>
          cases amount with
          | zero => simp [count] at released
          | succ left =>
              simp only [count] at released
              cases Except.ok.inj released
              have others : (rest.filter fun other => (found.1.insert point left).get? other = some 1) =
                  rest.filter fun other => found.1.get? other = some 1 := by
                refine List.filter_congr fun other member => ?_
                have apart : other ≠ point := by
                  rintro rfl
                  exact fresh member
                simp [apart]
              dsimp only
              rw [others]
              by_cases last : left = 0
              · simp [count, last]
              · simp [count, last]

/-- Two points with the same dependencies, the first of which is listed before the second. -/
structure Pair (table : List (α × List α)) (first second : α) (firstRow secondRow : List α) : Prop where
  points : (table.map Prod.fst).Nodup
  rows : ∀ entry ∈ table, entry.2.Nodup
  listed : [(first, firstRow), (second, secondRow)].Sublist table
  same : ∀ dependency, dependency ∈ firstRow ↔ dependency ∈ secondRow

namespace Pair

variable {firstRow secondRow : List α} (pair : Pair table first second firstRow secondRow)

include pair

omit [DecidableEq α] in
theorem firstListed : (first, firstRow) ∈ table := pair.listed.subset List.mem_cons_self

omit [DecidableEq α] in
theorem secondListed : (second, secondRow) ∈ table := pair.listed.subset (by simp)

theorem position_lt : position table first < position table second := by
  obtain ⟨early, late, split, firstIn, rest⟩ := List.cons_sublist_iff.mp pair.listed
  obtain ⟨before, between, rfl⟩ := List.append_of_mem firstIn
  obtain ⟨middle, after, rfl⟩ := List.append_of_mem (List.singleton_sublist.mp rest)
  have firstAt := @position_eq α _ table pair.points before
    (between ++ (middle ++ (second, secondRow) :: after)) (first, firstRow) (by simp [split])
  have secondAt := @position_eq α _ table pair.points
    (before ++ (first, firstRow) :: between ++ middle) after (second, secondRow) (by simp [split])
  rw [firstAt, secondAt]
  simp

omit [DecidableEq α] in
theorem perm : firstRow.Perm secondRow :=
  (List.perm_ext_iff_of_nodup (pair.rows _ pair.firstListed) (pair.rows _ pair.secondListed)).mpr
    pair.same

theorem remaining_eq {progress : Progress α} (sound : Sound table progress) :
    progress.remaining.get? first = progress.remaining.get? second := by
  rw [sound.counted pair.points _ pair.firstListed, sound.counted pair.points _ pair.secondListed]
  exact congrArg some (pair.perm.countP_eq _)

theorem dependents_nodup (point : α) : (dependents table point).Nodup := by
  rw [List.nodup_iff_count_le_one]
  intro other
  by_cases listed : other ∈ dependents table point
  · obtain ⟨row, member, _⟩ := mem_dependents.mp listed
    rw [count_dependents_demand, demand_of_nodup pair.points member]
    exact List.nodup_iff_count_le_one.mp (pair.rows _ member) point
  · rw [List.count_eq_zero.mpr listed]
    exact Nat.zero_le 1

theorem queued_together {progress : Progress α} (sound : Sound table progress)
    (held : Balanced table progress) :
    first ∈ progress.order ++ progress.queue ↔ second ∈ progress.order ++ progress.queue := by
  have settled : ∀ point, point ∈ progress.order ++ progress.queue ↔
      progress.remaining.get? point = some 0 :=
    fun point => ⟨sound.closed point, held.complete point⟩
  rw [settled, settled, pair.remaining_eq sound]

end Pair

def InPlace (first second : α) (progress : Progress α) : Prop :=
  first ∈ progress.order ++ progress.queue →
    [first, second].Sublist (progress.order ++ progress.queue)

section

variable {firstRow secondRow : List α} (pair : Pair table first second firstRow secondRow)

include pair

theorem inPlace_start : InPlace first second (start table) := by
  intro waits
  have also := (pair.queued_together sound_start balanced_start).mp waits
  rw [start, List.nil_append] at waits also ⊢
  exact pair_sublist_sorted pair.position_lt (mem_sorted.mp waits) (mem_sorted.mp also)

theorem InPlace.advance {progress next : Progress α} {point : α} {queue : List α}
    (sound : Sound table progress) (held : Balanced table progress)
    (kept : InPlace first second progress) (waiting : progress.queue = point :: queue)
    (advanced : advance table progress point queue = .ok next) : InPlace first second next := by
  have nextSound := sound.advance waiting advanced
  have nextHeld := held.advance sound waiting advanced
  rw [Kahn.advance, Checks.bind_eq_ok] at advanced
  obtain ⟨found, folded, built⟩ := advanced
  cases Except.ok.inj built
  have arranged : (sorted table (dependents table point)).Nodup :=
    (List.perm_insertionSort _ _).nodup_iff.mpr (pair.dependents_nodup point)
  have grown := queue_of_foldlM arranged folded
  have whole : progress.order ++ [point] ++ found.2 = (progress.order ++ progress.queue) ++
      (sorted table (dependents table point)).filter
        fun other => progress.remaining.get? other = some 1 := by
    rw [grown, waiting]
    simp
  intro waits
  have also := (pair.queued_together nextSound nextHeld).mp waits
  dsimp only at waits also ⊢
  rw [whole] at waits also ⊢
  by_cases early : first ∈ progress.order ++ progress.queue
  · exact (kept early).trans (List.sublist_append_left _ _)
  · -- The same release takes the last dependency from both.
    have late := mt (pair.queued_together sound held).mpr early
    have ascending := (List.pairwise_insertionSort
      (fun first second => position table first ≤ position table second) (dependents table point)).sublist
      (@List.filter_sublist _ (fun other => progress.remaining.get? other = some 1) _)
    have released := pair_sublist_of_pairwise ascending pair.position_lt
      ((List.mem_append.mp waits).resolve_left early) ((List.mem_append.mp also).resolve_left late)
    exact released.trans (List.sublist_append_right _ _)

theorem drain_inPlace {fuel : Nat} {progress final : Progress α} (sound : Sound table progress)
    (held : Balanced table progress) (kept : InPlace first second progress)
    (drained : drain table fuel progress = .ok final) : InPlace first second final := by
  have all := drain_keeps
    (fun progress => Sound table progress ∧ Balanced table progress ∧ InPlace first second progress)
    (fun ⟨sound, held, kept⟩ waiting advanced => ⟨sound.advance waiting advanced,
      held.advance sound waiting advanced, kept.advance pair sound held waiting advanced⟩)
    ⟨sound, held, kept⟩ drained
  exact all.2.2

theorem pair_sublist_order {points : List α} (ordered : order table = .ok points)
    (passed : first ∈ points) : [first, second].Sublist points := by
  obtain ⟨final, drained, same⟩ := Checks.bind_eq_ok.mp ordered
  cases Except.ok.inj same
  obtain ⟨_, empty⟩ := drain_sound sound_start (by simp [start]) drained
  have kept := drain_inPlace pair sound_start balanced_start (inPlace_start pair) drained
  rw [InPlace, empty, List.append_nil] at kept
  exact kept passed

end

end

end EmuChef.Kahn
