import Nexus.Graph.Settling

namespace ShortestPath
universe u
variable {V : Type u} [LinearOrder V] {g : Lengths V} {src : V} {cap : Nat} {s : Search V}

/-- `u` is settled before `v` and ends a walk to `v` as short as the best one found. -/
structure Search.Tight (s : Search V) (g : Lengths V) (u v : V) : Prop where
  settled : u ∈ s.settled
  length : ∃ e, g u v = some e ∧ s.reach u + e = s.reach v

/-- How `via` records the walk to `v`: the link from the source, which no other walk has beaten,
or the first vertex settled among those that end a best walk. -/
inductive Search.Recorded (s : Search V) (g : Lengths V) (src v : V) : Prop
  | direct : s.via v = v → g src v = some (s.reach v) → Recorded s g src v
  | relay : s.via v ≠ v → s.via v ≠ src → s.Tight g (s.via v) v → ¬Earlier s.settled v (s.via v) →
      (∀ x e, Earlier s.settled x (s.via v) → g x v = some e → s.reach v < s.reach x + e) →
      Recorded s g src v

theorem Run.via_src (run : Run g src cap s) : s.via src = src := by
  induction run with
  | start => rfl
  | @settle s u run _ ih =>
    rcases s.settle_cases g src u src with ⟨_, same, _⟩ | ⟨_, _, _, _, less, _⟩
    · rw [same, ih]
    · have zero := run.reach_src
      omega

/-- A vertex that no walk below the cap reaches keeps itself as its `via`. -/
theorem Run.via_unreached (run : Run g src cap s) {v : V} (far : s.reach v = cap) : s.via v = v := by
  induction run with
  | start => rfl
  | @settle s u run _ ih =>
    have bound := run.reach_le_cap v
    rcases s.settle_cases g src u v with ⟨same, kept, _⟩ | ⟨_, _, _, _, less, new, _⟩
    · rw [kept]
      exact ih (by omega)
    · omega

theorem Search.Recorded.settle_kept {v u : V} (record : s.Recorded g src v) (fresh : u ∉ s.settled)
    (reachKept : (s.settle g src u).reach v = s.reach v)
    (viaKept : (s.settle g src u).via v = s.via v) : (s.settle g src u).Recorded g src v := by
  cases record with
  | direct self link => exact .direct (viaKept.trans self) (link.trans (by rw [reachKept]))
  | relay notSelf notSrc tight order first =>
    have member : s.via v ∈ u :: s.settled := List.mem_cons_of_mem _ tight.settled
    have older : ∀ x, Earlier (u :: s.settled) x (s.via v) → Earlier s.settled x (s.via v) := by
      rintro x (⟨same, _⟩ | before)
      · exact (fresh (same ▸ tight.settled)).elim
      · exact before
    refine .relay (by rwa [viaKept]) (by rwa [viaKept]) ⟨by rwa [viaKept], ?_⟩ ?_ ?_
    · obtain ⟨e, link, sum⟩ := tight.length
      exact ⟨e, by rwa [viaKept], by rw [viaKept, Search.settle_reach_of_settled member, reachKept, sum]⟩
    · rw [viaKept]
      exact fun before => order (older v before)
    · rw [viaKept, reachKept]
      intro x e before link
      have old := older x before
      rw [Search.settle_reach_of_settled (List.mem_cons_of_mem _ old.mem.1)]
      exact first x e old link

theorem Run.recorded (run : Run g src cap s) (positive : 0 < cap) {v : V} (other : v ≠ src)
    (found : s.reach v < cap) : s.Recorded g src v := by
  induction run with
  | start => simp [Search.initial, other] at found
  | @settle s u run next ih =>
    rcases s.settle_cases g src u v with ⟨reachKept, viaKept, _⟩ | ⟨e, link, notSelf, fresh, less, new, via⟩
    · exact (ih (by omega)).settle_kept next.fresh reachKept viaKept
    · rcases run.src_first positive next with ⟨rfl, rfl⟩ | ⟨_, notSrc⟩
      · refine .direct (by rw [via, if_pos rfl]; rfl) ?_
        rw [new, link, run.reach_src, Nat.zero_add]
      · rw [if_neg notSrc] at via
        have chosen : u ∈ u :: s.settled := List.mem_cons_self
        refine .relay (by rw [via]; exact notSelf.symm) (by rwa [via]) ⟨by rw [via]; exact chosen, ?_⟩ ?_ ?_
        · exact ⟨e, by rwa [via], by rw [via, Search.settle_reach_of_settled chosen, new]⟩
        · rw [via]
          rintro (⟨_, old⟩ | before)
          · exact fresh old
          · exact fresh before.mem.1
        · rw [via, new]
          rintro x e' (⟨_, old⟩ | before) link'
          · have bound := run.relaxed old link'
            rw [Search.settle_reach_of_settled (List.mem_cons_of_mem _ old)]
            omega
          · exact (next.fresh before.mem.2).elim

end ShortestPath
