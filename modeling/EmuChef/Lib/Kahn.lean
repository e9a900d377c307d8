import EmuChef.Lib.Checks
import EmuChef.Lib.OrderedMap
import Mathlib.Data.List.Sort

/-! Ordering points after the points they depend on, by counting the dependencies that are still
open. -/

namespace EmuChef.Kahn

variable {α : Type} [DecidableEq α]

/-- The open dependencies of each point, the points that have none left, and those passed. -/
structure Progress (α : Type) [DecidableEq α] where
  remaining : OrderedMap α Nat
  queue : List α
  order : List α

variable (table : List (α × List α))

def position (point : α) : Nat :=
  ((OrderedMap.ofList (table.zipIdx.map fun entry => (entry.1.1, entry.2))).get? point).getD 0

def sorted (points : List α) : List α :=
  points.insertionSort fun first second => position table first ≤ position table second

def dependents (point : α) : List α :=
  table.flatMap fun entry => (entry.2.filter fun dependency => dependency = point).map fun _ => entry.1

def release (found : OrderedMap α Nat × List α) (point : α) :
    Except α (OrderedMap α Nat × List α) :=
  match found.1.get? point with
  | none => .ok found
  | some 0 => .error point
  | some (rest + 1) =>
      .ok (found.1.insert point rest, if rest = 0 then found.2 ++ [point] else found.2)

def advance (progress : Progress α) (point : α) (queue : List α) : Except α (Progress α) := do
  let found ← (sorted table (dependents table point)).foldlM release (progress.remaining, queue)
  return ⟨found.1, found.2, progress.order ++ [point]⟩

def drain : Nat → Progress α → Except α (Progress α)
  | 0, progress => .ok progress
  | fuel + 1, progress =>
      match progress.queue with
      | [] => .ok progress
      | point :: queue => do
          let next ← advance table progress point queue
          drain fuel next

def counts : OrderedMap α Nat := .ofList (table.map fun entry => (entry.1, entry.2.length))

def ready : List α :=
  sorted table (((counts table).entries.filter fun entry => entry.2 = 0).map Prod.fst)

def start : Progress α := ⟨counts table, ready table, []⟩

def order : Except α (List α) := do
  let final ← drain table (table.length + 1) (start table)
  return final.order

section

variable {table} {points : List α} {point : α}

@[simp] theorem mem_sorted :
    point ∈ sorted table points ↔ point ∈ points := by
  simp [sorted]

theorem mem_dependents {other : α} : other ∈ dependents table point ↔
    ∃ dependencies, (other, dependencies) ∈ table ∧ point ∈ dependencies := by
  simp [dependents]

structure Released (settled : List α) (before : OrderedMap α Nat) (passed : List α)
    (found : OrderedMap α Nat × List α) : Prop where
  distinct : (settled ++ found.2).Nodup
  closed : ∀ point ∈ settled ++ found.2, found.1.get? point = some 0
  unknown : ∀ point, before.get? point = none → found.1.get? point = none
  counted : ∀ point count, before.get? point = some count →
    ∃ left, found.1.get? point = some left ∧ left + passed.count point = count

theorem Released.step {settled passed : List α} {before : OrderedMap α Nat}
    {found next : OrderedMap α Nat × List α} (held : Released settled before passed found)
    (released : release found point = .ok next) :
    Released settled before (passed ++ [point]) next := by
  rw [release] at released
  cases count : found.1.get? point with
  | none =>
      simp only [count] at released
      cases Except.ok.inj released
      refine ⟨held.distinct, held.closed, held.unknown, fun other amount known => ?_⟩
      obtain ⟨left, same, total⟩ := held.counted other amount known
      refine ⟨left, same, ?_⟩
      have apart : point ≠ other := by
        rintro rfl
        simp [count] at same
      simpa [List.count_append, apart] using total
  | some amount =>
      cases amount with
      | zero => simp [count] at released
      | succ rest =>
          simp only [count] at released
          cases Except.ok.inj released
          have outside : point ∉ settled ++ found.2 := by
            intro inside
            have none := held.closed point inside
            simp [count] at none
          have kept : ∀ other ∈ settled ++ found.2, (found.1.insert point rest).get? other = some 0 := by
            intro other inside
            have apart : other ≠ point := by
              rintro rfl
              exact outside inside
            simpa [apart] using held.closed other inside
          refine ⟨?_, ?_, ?_, ?_⟩
          · by_cases last : rest = 0
            · simp only [last, ↓reduceIte, ← List.append_assoc]
              exact List.Nodup.append held.distinct (by simp) (by simpa using outside)
            · simpa [last] using held.distinct
          · intro other inside
            by_cases last : rest = 0
            · simp only [last, ↓reduceIte, ← List.append_assoc, List.mem_append,
                List.mem_singleton] at inside
              rcases inside with inside | rfl
              · exact kept other (by simpa using inside)
              · simp [last]
            · exact kept other (by simpa [last] using inside)
          · intro other missing
            have apart : other ≠ point := by
              rintro rfl
              simp [held.unknown _ missing] at count
            simpa [apart] using held.unknown other missing
          · intro other amount known
            obtain ⟨left, same, total⟩ := held.counted other amount known
            by_cases apart : point = other
            · subst apart
              obtain rfl : rest + 1 = left := by simpa [count] using same
              exact ⟨rest, by simp, by simp [List.count_append]; omega⟩
            · exact ⟨left, by simpa [Ne.symm apart] using same,
                by simpa [List.count_append, apart] using total⟩

theorem released_foldlM {settled queue : List α} {before : OrderedMap α Nat}
    {next : OrderedMap α Nat × List α} (distinct : (settled ++ queue).Nodup)
    (closed : ∀ point ∈ settled ++ queue, before.get? point = some 0)
    (folded : points.foldlM release (before, queue) = .ok next) :
    Released settled before points next :=
  Checks.foldlM_invariant (fun passed found => Released settled before passed found)
    ⟨distinct, closed, fun _ missing => missing, fun _ count known => ⟨count, known, by simp⟩⟩
    (fun _ _ _ _ _ _ held released => held.step released) folded

def openCount (passed dependencies : List α) : Nat :=
  dependencies.countP fun dependency => dependency ∉ passed

/-- The points passed and queued are distinct points of the table without open dependencies; the
counts are those of the dependencies not yet passed, and all dependencies of a passed point came
before it. -/
structure Sound (table : List (α × List α)) (progress : Progress α) : Prop where
  distinct : (progress.order ++ progress.queue).Nodup
  closed : ∀ point ∈ progress.order ++ progress.queue, progress.remaining.get? point = some 0
  known : ∀ point, (progress.remaining.get? point).isSome = true ↔ point ∈ table.map Prod.fst
  counted : (table.map Prod.fst).Nodup → ∀ entry ∈ table,
    progress.remaining.get? entry.1 = some (openCount progress.order entry.2)
  ordered : (table.map Prod.fst).Nodup → ∀ before point after,
    progress.order = before ++ point :: after → ∀ entry ∈ table, entry.1 = point →
      ∀ dependency ∈ entry.2, dependency ∈ before

def demand (table : List (α × List α)) (point : α) : List α :=
  (table.filter fun entry => entry.1 = point).flatMap Prod.snd

theorem count_dependents_demand {other : α} :
    (dependents table point).count other = (demand table other).count point := by
  induction table with
  | nil => rfl
  | cons first rest ih =>
      have head : ((first.2.filter fun dependency => dependency = point).map
          fun _ => first.1).count other = if first.1 = other then first.2.count point else 0 := by
        rw [List.map_const', List.count_replicate]
        simp [List.count_eq_length_filter, beq_eq_decide]
      have split : dependents (first :: rest) point = ((first.2.filter fun dependency =>
          dependency = point).map fun _ => first.1) ++ dependents rest point := rfl
      rw [split, List.count_append, head, ih]
      by_cases same : first.1 = other
      · simp [demand, same]
      · simp [demand, same]

theorem demand_of_nodup (distinct : (table.map Prod.fst).Nodup) {entry : α × List α}
    (listed : entry ∈ table) : demand table entry.1 = entry.2 := by
  induction table with
  | nil => exact nomatch listed
  | cons first rest ih =>
      rw [List.map_cons, List.nodup_cons] at distinct
      rcases List.mem_cons.mp listed with rfl | later
      · have none : rest.filter (fun other => other.1 = entry.1) = [] := by
          refine List.filter_eq_nil_iff.mpr fun other member same => distinct.1 ?_
          exact List.mem_map.mpr ⟨other, member, by simpa using same⟩
        simp [demand, none]
      · have apart : first.1 ≠ entry.1 :=
          fun same => distinct.1 (same ▸ List.mem_map.mpr ⟨entry, later, rfl⟩)
        rw [demand, List.filter_cons_of_neg (by simpa using apart)]
        exact ih distinct.2 later

theorem openCount_append {dependencies passed : List α} (fresh : point ∉ passed) :
    openCount passed dependencies =
      openCount (passed ++ [point]) dependencies + dependencies.count point := by
  induction dependencies with
  | nil => rfl
  | cons other rest ih =>
      simp only [openCount, List.countP_cons, List.count_cons] at ih ⊢
      by_cases same : other = point
      · subst same
        simp [fresh] at ih ⊢
        omega
      · by_cases inside : other ∈ passed
        · simp [same, inside] at ih ⊢
          omega
        · simp [same, inside] at ih ⊢
          omega

theorem sound_start : Sound table (start table) where
  distinct := by
    have filtered := (counts table).distinct.sublist
      (List.filter_sublist.map Prod.fst :
        (((counts table).entries.filter fun entry => entry.2 = 0).map Prod.fst).Sublist _)
    simpa [start, ready, sorted] using (List.perm_insertionSort _ _).nodup_iff.mpr filtered
  closed := by
    intro point inside
    simp only [start, ready, List.nil_append, mem_sorted, List.mem_map, List.mem_filter,
      decide_eq_true_eq] at inside
    obtain ⟨entry, ⟨listed, none⟩, rfl⟩ := inside
    exact OrderedMap.get?_eq_some.mpr (none ▸ listed)
  known := by
    intro point
    simp [start, counts, OrderedMap.get?_isSome, OrderedMap.mem_keys_ofList]
  counted := by
    intro distinct entry listed
    refine (OrderedMap.get?_ofList (by simpa [List.map_map, Function.comp_def] using distinct)).mpr ?_
    exact List.mem_map.mpr ⟨entry, listed, by simp [start, openCount]⟩
  ordered := by
    intro _ before point after same
    simp [start] at same

theorem Sound.fresh {progress : Progress α} {queue : List α} (held : Sound table progress)
    (waiting : progress.queue = point :: queue) :
    point ∉ progress.order := by
  have distinct := held.distinct
  rw [waiting, List.nodup_append] at distinct
  exact fun inside => distinct.2.2 point inside point (by simp) rfl

theorem Sound.advance {progress next : Progress α} {queue : List α}
    (held : Sound table progress) (waiting : progress.queue = point :: queue)
    (advanced : advance table progress point queue = .ok next) : Sound table next := by
  rw [Kahn.advance, Checks.bind_eq_ok] at advanced
  obtain ⟨found, folded, built⟩ := advanced
  cases Except.ok.inj built
  have queued : progress.order ++ progress.queue = progress.order ++ [point] ++ queue := by
    simp [waiting]
  have released := released_foldlM (queued ▸ held.distinct) (queued ▸ held.closed) folded
  have fresh := held.fresh waiting
  refine ⟨released.distinct, released.closed, ?_, ?_, ?_⟩
  · intro other
    rw [← held.known other]
    cases before : progress.remaining.get? other with
    | none => simp [released.unknown other before]
    | some count =>
        obtain ⟨left, same, _⟩ := released.counted other count before
        simp [same]
  · intro distinct entry listed
    obtain ⟨left, same, total⟩ := released.counted _ _ (held.counted distinct entry listed)
    have sorts : (sorted table (dependents table point)).count entry.1 =
        (dependents table point).count entry.1 := (List.perm_insertionSort _ _).count_eq _
    rw [sorts, count_dependents_demand, demand_of_nodup distinct listed, openCount_append fresh] at total
    have rest : left = openCount (progress.order ++ [point]) entry.2 := by omega
    rw [same, rest]
  · intro distinct before other after split entry listed named dependency depends
    rcases List.eq_nil_or_concat after with rfl | ⟨earlier, last, rfl⟩
    · obtain ⟨rfl, same⟩ := List.append_inj' split rfl
      obtain rfl : point = other := by simpa using same
      have open_ := held.counted distinct entry listed
      rw [named, held.closed point (by simp [waiting])] at open_
      have none := List.countP_eq_zero.mp (Option.some.inj open_).symm dependency depends
      simpa using none
    · have shorter : progress.order ++ [point] = (before ++ other :: earlier) ++ [last] := by
        simpa using split
      obtain ⟨same, _⟩ := List.append_inj' shorter rfl
      exact held.ordered distinct before other earlier same entry listed named dependency depends

theorem Sound.length_le {progress : Progress α} (held : Sound table progress) :
    progress.order.length ≤ table.length := by
  have distinct := (List.nodup_append.mp held.distinct).1
  have inside : progress.order ⊆ table.map Prod.fst := by
    intro point passed
    exact (held.known point).mp (by simp [held.closed point (List.mem_append_left _ passed)])
  simpa using (List.subperm_of_subset distinct inside).length_le

theorem drain_sound {fuel : Nat} {progress final : Progress α} (held : Sound table progress)
    (room : table.length < fuel + progress.order.length)
    (drained : drain table fuel progress = .ok final) : Sound table final ∧ final.queue = [] := by
  induction fuel generalizing progress with
  | zero =>
      have bounded := held.length_le
      omega
  | succ fuel ih =>
      rw [drain] at drained
      cases waiting : progress.queue with
      | nil =>
          simp only [waiting] at drained
          cases Except.ok.inj drained
          exact ⟨held, waiting⟩
      | cons point queue =>
          simp only [waiting] at drained
          obtain ⟨next, advanced, rest⟩ := Checks.bind_eq_ok.mp drained
          refine ih (held.advance waiting advanced) ?_ rest
          obtain ⟨found, _, built⟩ := Checks.bind_eq_ok.mp advanced
          cases Except.ok.inj built
          rw [List.length_append, List.length_singleton]
          omega

theorem order_sound (ordered : order table = .ok points) :
    ∃ progress, Sound table progress ∧ progress.queue = [] ∧ progress.order = points := by
  obtain ⟨final, drained, same⟩ := Checks.bind_eq_ok.mp ordered
  cases Except.ok.inj same
  obtain ⟨held, empty⟩ := drain_sound sound_start (by simp [start]) drained
  exact ⟨final, held, empty, rfl⟩

theorem nodup_of_order (ordered : order table = .ok points) : points.Nodup := by
  obtain ⟨progress, held, _, rfl⟩ := order_sound ordered
  exact (List.nodup_append.mp held.distinct).1

theorem subset_of_order (ordered : order table = .ok points) :
    points ⊆ table.map Prod.fst := by
  obtain ⟨progress, held, _, rfl⟩ := order_sound ordered
  intro point passed
  exact (held.known point).mp (by simp [held.closed point (List.mem_append_left _ passed)])

theorem perm_of_order (ordered : order table = .ok points) (long : points.length = table.length) :
    points.Perm (table.map Prod.fst) := by
  exact (List.subperm_of_subset (nodup_of_order ordered)
    (subset_of_order ordered)).perm_of_length_le (by simp [long])

/-- In a whole order each point comes after the points it depends on. -/
theorem dependency_before {before after : List α} {dependencies : List α}
    (ordered : order table = .ok points) (long : points.length = table.length)
    (split : points = before ++ point :: after) (listed : (point, dependencies) ∈ table) :
    ∀ dependency ∈ dependencies, dependency ∈ before := by
  have distinct := (perm_of_order ordered long).nodup_iff.mp (nodup_of_order ordered)
  obtain ⟨progress, held, _, rfl⟩ := order_sound ordered
  exact held.ordered distinct before point after split _ listed rfl

end

end EmuChef.Kahn
