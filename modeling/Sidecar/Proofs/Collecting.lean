import Mathlib.Data.List.Nodup
import Sidecar.Metrics

/-!
# What a collector keeps

A collector divides the records that are made into groups, one for each step. Nothing is lost by that, nothing is kept
twice, and the records of one step stay in their order. Only the order in which the groups come when all records are
asked for is nobody's promise, so everything that is said of all records is said of every such order
(`MetricsCollector.Lists`).

The main statement is `MetricsCollector.records_kept`. It rests on an invariant of the groups, `Grouped`, which a new
record keeps (`Grouped.addTo`) and an order of the groups cannot break (`Grouped.perm`); and on the fact that records in
the order of their steps are known from the records of each step (`eq_of_ordered`).
-/

namespace Sidecar

namespace MetricsCollector

/-! ## The records of one step -/

/-- Those of some records that are about a step. -/
def ofStep (id : String) (records : List ProcessMetrics) : List ProcessMetrics :=
  records.filter fun m => m.stepId = id

theorem ofStep_cons_self (m : ProcessMetrics) (records : List ProcessMetrics) :
    ofStep m.stepId (m :: records) = m :: ofStep m.stepId records := by
  simp [ofStep]

theorem ofStep_cons_of_ne {id : String} {m : ProcessMetrics} (h : m.stepId ≠ id) (records : List ProcessMetrics) :
    ofStep id (m :: records) = ofStep id records := by
  simp [ofStep, h]

theorem ofStep_append (id : String) (front back : List ProcessMetrics) :
    ofStep id (front ++ back) = ofStep id front ++ ofStep id back :=
  List.filter_append ..

theorem ofStep_eq_self {id : String} {records : List ProcessMetrics} (h : ∀ m ∈ records, m.stepId = id) :
    ofStep id records = records := by
  rw [ofStep, List.filter_eq_self]
  intro m hm
  exact decide_eq_true (h m hm)

theorem ofStep_eq_nil {id : String} {records : List ProcessMetrics} (h : ∀ m ∈ records, m.stepId ≠ id) :
    ofStep id records = [] := by
  rw [ofStep, List.filter_eq_nil_iff]
  intro m hm hid
  exact h m hm (of_decide_eq_true hid)

theorem count_ofStep (m : ProcessMetrics) (records : List ProcessMetrics) :
    (ofStep m.stepId records).count m = records.count m :=
  List.count_filter (decide_eq_true rfl)

/-- Of a list of records a collector keeps those of each step, in their order. -/
theorem get_ofList (records : List ProcessMetrics) (id : String) :
    (ofList records).get id = records.filter fun m => m.stepId = id := by
  -- the records come behind whatever a collector has kept before
  have hfold : ∀ c : MetricsCollector,
      (records.foldl record c).get id = c.get id ++ records.filter fun m => m.stepId = id := by
    induction records with
    | nil => exact fun c => (List.append_nil _).symm
    | cons m records ih =>
      intro c
      rw [List.foldl_cons, ih, get_record, List.filter_cons]
      by_cases hid : id = m.stepId
      · simp [hid]
      · simp [hid, Ne.symm hid]
  exact hfold {}

/-! ## Groups -/

/-- Each step has one group, and the group of a step holds records of this step only. -/
structure Grouped (groups : List (String × List ProcessMetrics)) : Prop where
  nodup : (groups.map (·.1)).Nodup
  own : ∀ group ∈ groups, ∀ m ∈ group.2, m.stepId = group.1

section

variable {groups groups' : List (String × List ProcessMetrics)}

theorem Grouped.tail {group : String × List ProcessMetrics} (h : Grouped (group :: groups)) : Grouped groups where
  nodup := h.nodup.of_cons
  own other hother := h.own other (List.mem_cons_of_mem group hother)

/-- No other group is about the step of the first one. -/
theorem Grouped.ne_head {group : String × List ProcessMetrics} (h : Grouped (group :: groups)) :
    ∀ other ∈ groups, other.1 ≠ group.1 := by
  intro other hother heq
  have hnew : group.1 ∉ groups.map (·.1) := (List.nodup_cons.1 h.nodup).1
  have hold : other.1 ∈ groups.map (·.1) := List.mem_map_of_mem hother
  rw [heq] at hold
  exact hnew hold

/-- A new record is about a step that has a group, or makes a group for it behind all others. -/
theorem map_fst_addTo (m : ProcessMetrics) (groups : List (String × List ProcessMetrics)) :
    (addTo m groups).map (·.1) =
      if m.stepId ∈ groups.map (·.1) then groups.map (·.1) else groups.map (·.1) ++ [m.stepId] := by
  induction groups with
  | nil => rfl
  | cons group rest ih =>
    obtain ⟨id, records⟩ := group
    rw [addTo]
    by_cases hid : id = m.stepId
    · simp [hid]
    · have hne : m.stepId ≠ id := Ne.symm hid
      rw [if_neg hid, List.map_cons, ih]
      by_cases hmem : m.stepId ∈ rest.map (·.1)
      · simp [hmem]
      · simp [hmem, hne]

/-- What is in a group after a new record is this record, or was in the group of the same step before. -/
theorem of_mem_addTo {m m' : ProcessMetrics} {group : String × List ProcessMetrics} (hgroup : group ∈ addTo m groups)
    (hm' : m' ∈ group.2) :
    group.1 = m.stepId ∧ m' = m ∨ ∃ old ∈ groups, old.1 = group.1 ∧ m' ∈ old.2 := by
  induction groups with
  | nil =>
    obtain rfl : group = (m.stepId, [m]) := List.mem_singleton.1 hgroup
    exact .inl ⟨rfl, List.mem_singleton.1 hm'⟩
  | cons first rest ih =>
    obtain ⟨id, records⟩ := first
    rw [addTo] at hgroup
    by_cases hid : id = m.stepId
    · rw [if_pos hid] at hgroup
      rcases List.mem_cons.1 hgroup with rfl | hrest
      · rcases List.mem_append.1 hm' with hold | hnew
        · exact .inr ⟨(id, records), List.mem_cons_self, rfl, hold⟩
        · exact .inl ⟨hid, List.mem_singleton.1 hnew⟩
      · exact .inr ⟨group, List.mem_cons_of_mem _ hrest, rfl, hm'⟩
    · rw [if_neg hid] at hgroup
      rcases List.mem_cons.1 hgroup with rfl | hrest
      · exact .inr ⟨(id, records), List.mem_cons_self, rfl, hm'⟩
      · rcases ih hrest with hnew | ⟨old, hold, hsame⟩
        · exact .inl hnew
        · exact .inr ⟨old, List.mem_cons_of_mem _ hold, hsame⟩

/-- A new record keeps the groups apart. -/
theorem Grouped.addTo (h : Grouped groups) (m : ProcessMetrics) : Grouped (addTo m groups) := by
  constructor
  · rw [map_fst_addTo]
    split
    · exact h.nodup
    · rename_i hnew
      rw [List.nodup_append]
      refine ⟨h.nodup, List.nodup_singleton _, ?_⟩
      intro id hid other hother heq
      rw [List.mem_singleton.1 hother] at heq
      exact hnew (heq ▸ hid)
  · intro group hgroup m' hm'
    rcases of_mem_addTo hgroup hm' with ⟨hid, rfl⟩ | ⟨old, hold, hid, hm'⟩
    · exact hid.symm
    · rw [← hid]
      exact h.own old hold m' hm'

/-- The groups of a collector are apart after any records. -/
theorem grouped_ofList (records : List ProcessMetrics) : Grouped (ofList records).groups := by
  have hfold : ∀ c : MetricsCollector, Grouped c.groups → Grouped (records.foldl record c).groups := by
    induction records with
    | nil => exact fun c hc => hc
    | cons m records ih =>
      intro c hc
      exact ih (c.record m) (hc.addTo m)
  exact hfold {} ⟨List.nodup_nil, fun group hgroup => absurd hgroup List.not_mem_nil⟩

/-- It does not matter in which order the groups stand. -/
theorem Grouped.perm (h : Grouped groups) (hperm : groups.Perm groups') : Grouped groups' where
  nodup := (hperm.map (·.1)).nodup_iff.1 h.nodup
  own group hgroup := h.own group (hperm.mem_iff.2 hgroup)

/-- What all groups have about a step is its group. -/
theorem Grouped.ofStep_flatMap (h : Grouped groups) (id : String) :
    ofStep id (groups.flatMap (·.2)) = (groups.lookup id).getD [] := by
  induction groups with
  | nil => rfl
  | cons group rest ih =>
    obtain ⟨step, records⟩ := group
    have hrecords : ∀ m ∈ records, m.stepId = step := h.own (step, records) List.mem_cons_self
    rw [List.flatMap_cons, ofStep_append, List.lookup_cons]
    by_cases hid : id = step
    · -- the other groups have nothing about this step
      subst hid
      have hothers : ∀ m ∈ rest.flatMap (·.2), m.stepId ≠ id := by
        intro m hm
        obtain ⟨other, hother, hm⟩ := List.mem_flatMap.1 hm
        rw [h.tail.own other hother m hm]
        exact h.ne_head other hother
      rw [ofStep_eq_self hrecords, ofStep_eq_nil hothers, beq_self_eq_true]
      exact List.append_nil records
    · have hnone : ∀ m ∈ records, m.stepId ≠ id := by
        intro m hm
        rw [hrecords m hm]
        exact Ne.symm hid
      rw [ofStep_eq_nil hnone, beq_eq_false_iff_ne.2 hid, List.nil_append]
      exact ih h.tail

/-- What all groups have about a step does not depend on the order of the groups. -/
theorem Grouped.ofStep_of_perm (h : Grouped groups) (hperm : groups.Perm groups') (id : String) :
    ofStep id (groups'.flatMap (·.2)) = ofStep id (groups.flatMap (·.2)) := by
  induction hperm with
  | nil => rfl
  | cons group _ ih =>
    rw [List.flatMap_cons, List.flatMap_cons, ofStep_append, ofStep_append, ih h.tail]
  | swap first second rest =>
    -- two groups are about two steps, so at most one of them has anything
    have hne : first.1 ≠ second.1 := h.ne_head first List.mem_cons_self
    have hfirst : first.1 ≠ id → ofStep id first.2 = [] := by
      intro hid
      refine ofStep_eq_nil fun m hm => ?_
      rw [h.own first (List.mem_cons_of_mem _ List.mem_cons_self) m hm]
      exact hid
    have hsecond : second.1 ≠ id → ofStep id second.2 = [] := by
      intro hid
      refine ofStep_eq_nil fun m hm => ?_
      rw [h.own second List.mem_cons_self m hm]
      exact hid
    simp only [List.flatMap_cons, ofStep_append]
    by_cases hid : first.1 = id
    · rw [hsecond fun heq => hne (hid.trans heq.symm), List.nil_append, List.nil_append]
    · rw [hfirst hid, List.nil_append, List.nil_append]
  | trans hfront _ ihfront ihback => rw [ihback (h.perm hfront), ihfront h]

end

/-! ## The order of the steps -/

/-- Sorts records by their steps. Records of one step keep their order. -/
def sortByStep (records : List ProcessMetrics) : List ProcessMetrics :=
  records.mergeSort fun a b => a.stepId ≤ b.stepId

theorem perm_sortByStep (records : List ProcessMetrics) : (sortByStep records).Perm records :=
  List.mergeSort_perm ..

private theorem stepId_le_trans (a b c : ProcessMetrics) (hab : decide (a.stepId ≤ b.stepId) = true)
    (hbc : decide (b.stepId ≤ c.stepId) = true) : decide (a.stepId ≤ c.stepId) = true :=
  decide_eq_true (String.le_trans (of_decide_eq_true hab) (of_decide_eq_true hbc))

private theorem stepId_le_total (a b : ProcessMetrics) :
    (decide (a.stepId ≤ b.stepId) || decide (b.stepId ≤ a.stepId)) = true := by
  rw [Bool.or_eq_true, decide_eq_true_iff, decide_eq_true_iff]
  exact String.le_total ..

theorem pairwise_sortByStep (records : List ProcessMetrics) :
    (sortByStep records).Pairwise fun a b => a.stepId ≤ b.stepId := by
  refine (List.pairwise_mergeSort stepId_le_trans stepId_le_total records).imp ?_
  intro a b hab
  exact of_decide_eq_true hab

/-- Sorting by steps does not change the records of a step. -/
theorem ofStep_sortByStep (id : String) (records : List ProcessMetrics) :
    ofStep id (sortByStep records) = ofStep id records := by
  have hequal : (ofStep id records).Pairwise fun a b => decide (a.stepId ≤ b.stepId) = true := by
    refine List.pairwise_of_forall_mem_list ?_
    intro a ha b hb
    have hida : a.stepId = id := of_decide_eq_true (List.mem_filter.1 ha).2
    have hidb : b.stepId = id := of_decide_eq_true (List.mem_filter.1 hb).2
    rw [hida, hidb]
    exact decide_eq_true (String.le_refl id)
  -- a sort that is stable leaves them as a sublist, and there are no more of them
  have hsublist : (ofStep id records).Sublist (sortByStep records) :=
    List.sublist_mergeSort stepId_le_trans stepId_le_total hequal List.filter_sublist
  have hkept : (ofStep id records).Sublist (ofStep id (sortByStep records)) := by
    have hfiltered := hsublist.filter fun m => m.stepId = id
    rwa [ofStep, List.filter_filter, List.filter_congr fun m _ => Bool.and_self _] at hfiltered
  refine (hkept.eq_of_length ?_).symm
  exact ((perm_sortByStep records).filter _).length_eq.symm

theorem mem_of_ofStep_eq {records others : List ProcessMetrics} (h : ∀ id, ofStep id records = ofStep id others)
    {m : ProcessMetrics} (hm : m ∈ records) : m ∈ others := by
  have hstep : m ∈ ofStep m.stepId records := List.mem_filter.2 ⟨hm, decide_eq_true rfl⟩
  rw [h] at hstep
  exact (List.mem_filter.1 hstep).1

/-- Records in the order of their steps are known from the records of each step. -/
theorem eq_of_ordered {records others : List ProcessMetrics}
    (hrecords : records.Pairwise fun a b => a.stepId ≤ b.stepId)
    (hothers : others.Pairwise fun a b => a.stepId ≤ b.stepId)
    (h : ∀ id, ofStep id records = ofStep id others) : records = others := by
  induction records generalizing others with
  | nil =>
    cases others with
    | nil => rfl
    | cons b others => exact absurd (mem_of_ofStep_eq (fun id => (h id).symm) List.mem_cons_self) List.not_mem_nil
  | cons a records ih =>
    cases others with
    | nil => exact absurd (mem_of_ofStep_eq h List.mem_cons_self) List.not_mem_nil
    | cons b others =>
      -- each of the two first records is about the least step, and both are the first about it
      have hab : a.stepId ≤ b.stepId := by
        rcases List.mem_cons.1 (mem_of_ofStep_eq (fun id => (h id).symm) List.mem_cons_self) with rfl | hb
        · exact String.le_refl _
        · exact (List.pairwise_cons.1 hrecords).1 b hb
      have hba : b.stepId ≤ a.stepId := by
        rcases List.mem_cons.1 (mem_of_ofStep_eq h List.mem_cons_self) with rfl | ha
        · exact String.le_refl _
        · exact (List.pairwise_cons.1 hothers).1 a ha
      have hstep : b.stepId = a.stepId := String.le_antisymm hba hab
      have hfirst := h a.stepId
      rw [ofStep_cons_self, ← hstep, ofStep_cons_self] at hfirst
      obtain ⟨rfl, hrest⟩ := List.cons.inj hfirst
      have htail : ∀ id, ofStep id records = ofStep id others := by
        intro id
        by_cases hid : a.stepId = id
        · rw [← hid]
          exact hrest
        · have hsame := h id
          rwa [ofStep_cons_of_ne hid, ofStep_cons_of_ne hid] at hsame
      rw [ih hrecords.of_cons hothers.of_cons htail]

/-! ## All records -/

/-- All records of a collector, group by group. The groups may come in any order. -/
def Lists (c : MetricsCollector) (all : List ProcessMetrics) : Prop :=
  ∃ groups, c.groups.Perm groups ∧ all = groups.flatMap (·.2)

/-- However all records are listed, those of a step are the ones that have been made about it, in their order. -/
theorem Lists.ofStep {records all : List ProcessMetrics} (h : (ofList records).Lists all) (id : String) :
    MetricsCollector.ofStep id all = MetricsCollector.ofStep id records := by
  obtain ⟨groups, hperm, rfl⟩ := h
  have hgrouped := grouped_ofList records
  calc MetricsCollector.ofStep id (groups.flatMap (·.2))
      = MetricsCollector.ofStep id ((ofList records).groups.flatMap (·.2)) := hgrouped.ofStep_of_perm hperm id
    _ = (ofList records).get id := hgrouped.ofStep_flatMap id
    _ = MetricsCollector.ofStep id records := get_ofList records id

theorem lists_getAll (c : MetricsCollector) : c.Lists c.getAll :=
  ⟨c.groups, List.Perm.refl _, rfl⟩

/-- After any records, a collector has for each step the records that have been made about it, in their order, and
nothing for a step without records. All records are those that have been made, each as often as it has been made, and
those of one step stand in their order; so sorting all records by their steps gives what sorting the records that have
been made gives. This is so in whatever order the groups of the steps come. -/
theorem records_kept (records : List ProcessMetrics) :
    (∀ id, (ofList records).get id = records.filter fun m => m.stepId = id) ∧
    (ofList records).Lists (ofList records).getAll ∧
    ∀ all, (ofList records).Lists all →
      (∀ m, all.count m = records.count m) ∧
      (∀ id, (all.filter fun m => m.stepId = id) = records.filter fun m => m.stepId = id) ∧
      sortByStep all = sortByStep records := by
  refine ⟨get_ofList records, lists_getAll _, ?_⟩
  intro all hall
  refine ⟨?_, hall.ofStep, ?_⟩
  · intro m
    calc all.count m
        = (MetricsCollector.ofStep m.stepId all).count m := (count_ofStep m all).symm
      _ = (MetricsCollector.ofStep m.stepId records).count m := by rw [hall.ofStep]
      _ = records.count m := count_ofStep m records
  · apply eq_of_ordered (pairwise_sortByStep all) (pairwise_sortByStep records)
    intro id
    rw [ofStep_sortByStep, ofStep_sortByStep, hall.ofStep]

/-- Records of two steps in turn, one of them made twice, listed with the group of the later step in front. -/
theorem records_kept_backwards :
    let first : ProcessMetrics := ⟨"redis", 1, some 101, some 2048, 250⟩
    let second : ProcessMetrics := ⟨"postgres", 1, none, none, 40⟩
    let third : ProcessMetrics := ⟨"redis", 2, some 102, none, 0⟩
    let records := [first, second, third, second]
    let all := [second, second, first, third]
    (ofList records).Lists all ∧ all ≠ (ofList records).getAll ∧ sortByStep all = sortByStep records := by
  intro first second third records all
  have hlists : (ofList records).Lists all :=
    ⟨[("postgres", [second, second]), ("redis", [first, third])], List.Perm.swap .., rfl⟩
  refine ⟨hlists, by decide, ?_⟩
  exact ((records_kept records).2.2 all hlists).2.2

end MetricsCollector

end Sidecar
