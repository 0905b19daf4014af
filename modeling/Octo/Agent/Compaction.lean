import Octo.Agent.Memory

/-!
# What compaction promises

`compactMemory` of `agentmemory.go` promises a transcript within its budget (or a single message),
without a tool turn at its start, made of a part of the old transcript and at most one summary.

* `compactMemory_promises_iff` — the promises hold exactly when the summary is short enough for
  the budget and pruning does not strand a tool turn.
* `compaction_breaks_promises` — a verbose summary, and an answered call that is too large.
-/

namespace Octo.Agent

open List

/-! ## The promises -/

/-- The summary turn that `summarizeMemory` puts in front. -/
def summaryTurn (summary : String) : LLMMessage :=
  .user ("Summary of earlier conversation:\n" ++ summary)

variable (maxTokens : Int)

def keptTurns (msgs : Messages) : Messages :=
  msgs.drop (summaryCut (maxTokens.tdiv 2) msgs)

/-- What the returned transcript `out` is promised to be. -/
structure Promises (maxTokens : Int) (strategy : Compaction) (msgs out : Messages) :
    Prop where
  size : (estimateTokens out : Int) ≤ maxTokens ∨ out.length = 1
  head : ∀ t, out.head? = some t → t.role = .tool → out = msgs
  parts : out <:+ msgs ∨
    strategy = .summarize ∧ ∃ summary kept, out = summaryTurn summary :: kept ∧ kept <:+ msgs

/-- The model gives a summary of the older turns, and is asked for it. -/
structure Gives (reply : Messages → Option String) (maxTokens : Int)
    (strategy : Compaction) (msgs : Messages) (summary : String) : Prop where
  strategy : strategy = .summarize
  given : summarizeTurns reply (msgs.take (summaryCut (maxTokens.tdiv 2) msgs)) = some summary
  nonempty : summary ≠ ""

/-- The summary, with the 33 bytes that introduce it, leaves room for the turns that are kept, or
nothing is kept. -/
def LeavesRoom (msgs : Messages) (summary : String) : Prop :=
  33 + summary.utf8ByteSize + ((keptTurns maxTokens msgs).map messageChars).sum <
      4 * (maxTokens + 1) ∨
    keptTurns maxTokens msgs = []

/-- The transcript ends in a tool turn, and no part of two or more turns at its end that starts
with another turn fits the budget. -/
structure Strands (maxTokens : Int) (msgs : Messages) : Prop where
  longer : 1 < msgs.length
  last : ∃ t, msgs.getLast? = some t ∧ t.role = .tool
  exceeds : ∀ part, part <:+ msgs → 1 < part.length → (∀ m, part.head? = some m → m.role ≠ .tool) →
    maxTokens < estimateTokens part

/-! ## Pruning -/

variable {part : Messages}

theorem suffix_dropLeadingTools (hlen : 1 < part.length)
    (hhead : ∀ m, part.head? = some m → m.role ≠ .tool) :
    ∀ l, part <:+ l → part <:+ dropLeadingTools l
  | [], h => h
  | [_], h => h
  | m :: n :: rest, h => by
    unfold dropLeadingTools
    split
    next htool =>
      rcases suffix_cons_iff.1 h with rfl | h
      · exact absurd htool (hhead m rfl)
      · exact suffix_dropLeadingTools hlen hhead (n :: rest) h
    · exact h

theorem dropLeadingTools_head : ∀ l, (dropLeadingTools l).length ≤ 1 ∨
    ∀ m, (dropLeadingTools l).head? = some m → m.role ≠ .tool
  | [] => .inl (Nat.zero_le 1)
  | [_] => .inl (Nat.le_refl 1)
  | m :: n :: rest => by
    unfold dropLeadingTools
    split
    · exact dropLeadingTools_head (n :: rest)
    next htool =>
      right
      rintro _ ⟨⟩
      exact htool

theorem pruneMemory_head (l : Messages) :
    pruneMemory maxTokens l = l ∨ (pruneMemory maxTokens l).length ≤ 1 ∨
      ∀ m, (pruneMemory maxTokens l).head? = some m → m.role ≠ .tool := by
  fun_induction pruneMemory maxTokens l with
  | case1 m n rest _ ih =>
    rcases ih with heq | hlen | hhead
    · rw [heq]
      exact .inr (dropLeadingTools_head (n :: rest))
    · exact .inr (.inl hlen)
    · exact .inr (.inr hhead)
  | case2 => exact .inl rfl
  | case3 => exact .inl rfl

theorem suffix_pruneMemory {maxTokens : Int} (hlen : 1 < part.length)
    (hhead : ∀ m, part.head? = some m → m.role ≠ .tool)
    (hfits : (estimateTokens part : Int) ≤ maxTokens) (l : Messages) (h : part <:+ l) :
    part <:+ pruneMemory maxTokens l := by
  fun_induction pruneMemory maxTokens l with
  | case1 m n rest hover ih =>
    rcases suffix_cons_iff.1 h with rfl | h
    · omega
    · exact ih (suffix_dropLeadingTools hlen hhead _ h)
  | case2 => exact h
  | case3 => exact h

variable {kept : Messages}

theorem eq_singleton_of_head {t : LLMMessage} (hone : kept.length ≤ 1)
    (ht : kept.head? = some t) : kept = [t] := by
  cases kept with
  | nil => cases ht
  | cons m rest =>
    cases ht
    rw [length_cons] at hone
    rw [length_eq_zero_iff.1 (by omega : rest.length = 0)]

/-- **A stranded tool turn** is left exactly when no longer part of the transcript's end could have
been left. -/
theorem pruneMemory_strands_iff {maxTokens : Int} {l : Messages} (h : Over maxTokens l) :
    (∃ t, (pruneMemory maxTokens l).head? = some t ∧ t.role = .tool ∧
      pruneMemory maxTokens l ≠ l) ↔ Strands maxTokens l := by
  have hne : l ≠ [] := by
    rintro rfl
    have hover := h.2
    have hpos := h.1
    simp only [estimateTokens, map_nil, sum_nil] at hover
    omega
  have hprune := pruneMemory_ne_nil maxTokens l hne
  obtain ⟨pre, hpre⟩ := pruneMemory_suffix maxTokens l
  constructor
  · rintro ⟨t, ht, htool, hchanged⟩
    have hone : (pruneMemory maxTokens l).length ≤ 1 := by
      rcases pruneMemory_head maxTokens l with heq | hlen | hhead
      · exact absurd heq hchanged
      · exact hlen
      · exact absurd htool (hhead t ht)
    have hkept : pruneMemory maxTokens l = [t] := eq_singleton_of_head hone ht
    rw [hkept] at hpre hchanged
    refine ⟨?_, ⟨t, by rw [← hpre]; simp, htool⟩, ?_⟩
    · rw [← hpre]
      cases pre with
      | nil => exact absurd hpre hchanged
      | cons => simp
    · intro part hpart hlen hhead
      by_contra hfits
      have hin : part <:+ pruneMemory maxTokens l :=
        suffix_pruneMemory hlen hhead (by omega) l hpart
      have hle := hin.length_le
      omega
  · rintro ⟨hlonger, ⟨t, hlast, htool⟩, hover⟩
    have hone : (pruneMemory maxTokens l).length ≤ 1 := by
      by_contra hlen
      rcases pruneMemory_fits maxTokens l with hfits | hle
      · rcases pruneMemory_head maxTokens l with heq | hle | hhead
        · rw [heq] at hfits
          have := h.2
          omega
        · exact hlen hle
        · have := hover _ (pruneMemory_suffix maxTokens l) (by omega) hhead
          omega
      · exact hlen hle
    obtain ⟨x, hx⟩ := Option.ne_none_iff_exists'.1 (head?_eq_none_iff.not.2 hprune)
    have hkept := eq_singleton_of_head hone hx
    rw [hkept] at hpre
    have hxt : x = t := by
      rw [← hpre] at hlast
      simpa using hlast
    refine ⟨x, hx, hxt ▸ htool, ?_⟩
    intro heq
    rw [heq] at hone
    omega

/-! ## Compaction -/

section Compaction

variable {reply : Messages → Option String} {maxTokens : Int} {strategy : Compaction}
  {msgs : Messages}

variable {summary : String}

theorem compactMemory_gives (hover : Over maxTokens msgs)
    (h : Gives reply maxTokens strategy msgs summary) :
    (compactMemory reply msgs maxTokens strategy).msgs =
      summaryTurn summary :: keptTurns maxTokens msgs := by
  have hguard : ¬ (maxTokens ≤ 0 ∨ (estimateTokens msgs) ≤ maxTokens) := by
    have := hover.1
    have := hover.2
    omega
  unfold compactMemory
  rw [if_neg hguard, h.strategy]
  simp only [summarizeMemory, if_neg (summaryCut_pos hover), h.given, if_neg h.nonempty]
  rfl

theorem estimateTokens_summary :
    (estimateTokens (summaryTurn summary :: kept) : Int) ≤ maxTokens ↔
      33 + summary.utf8ByteSize + (kept.map messageChars).sum < 4 * (maxTokens + 1) := by
  have hchars : messageChars (summaryTurn summary) = 33 + summary.utf8ByteSize := by
    simp [messageChars, summaryTurn, LLMMessage.user]
    rfl
  unfold estimateTokens
  rw [map_cons, sum_cons]
  omega

theorem promises_summary_iff (hstrategy : strategy = .summarize) :
    Promises maxTokens strategy msgs (summaryTurn summary :: keptTurns maxTokens msgs) ↔
      LeavesRoom maxTokens msgs summary := by
  constructor
  · intro h
    refine h.size.imp estimateTokens_summary.1 fun hlen => ?_
    rw [length_cons] at hlen
    exact length_eq_zero_iff.1 (by omega)
  · intro h
    refine ⟨?_, ?_, .inr ⟨hstrategy, summary, _, rfl, drop_suffix _ _⟩⟩
    · refine h.imp estimateTokens_summary.2 fun hnil => ?_
      rw [hnil]
      rfl
    · rintro t ⟨⟩ htool
      cases htool

theorem promises_prune_iff (hover : Over maxTokens msgs) :
    Promises maxTokens strategy msgs (pruneMemory maxTokens msgs) ↔ ¬ Strands maxTokens msgs := by
  rw [← pruneMemory_strands_iff hover]
  constructor
  · rintro h ⟨t, ht, htool, hchanged⟩
    exact hchanged (h.head t ht htool)
  · intro h
    refine ⟨?_, ?_, .inl (pruneMemory_suffix maxTokens msgs)⟩
    · rcases pruneMemory_fits maxTokens msgs with hfits | hle
      · exact .inl hfits
      · rcases Nat.le_one_iff_eq_zero_or_eq_one.1 hle with hzero | hone
        · rw [length_eq_zero_iff.1 hzero]
          exact .inl (Int.le_of_lt hover.1)
        · exact .inr hone
    · intro t ht htool
      by_contra hchanged
      exact h ⟨t, ht, htool, hchanged⟩

/-- **When compaction keeps its promises.** -/
theorem compactMemory_promises_iff (reply : Messages → Option String)
    (msgs : Messages) (maxTokens : Int) (strategy : Compaction) (hpos : 0 < maxTokens) :
    Promises maxTokens strategy msgs (compactMemory reply msgs maxTokens strategy).msgs ↔
      (Over maxTokens msgs → (∀ summary, Gives reply maxTokens strategy msgs summary →
          LeavesRoom maxTokens msgs summary) ∧
        ((∀ summary, ¬ Gives reply maxTokens strategy msgs summary) →
          ¬ Strands maxTokens msgs)) := by
  have hgives : ∀ summary, Gives reply maxTokens strategy msgs summary →
      Summarized reply maxTokens strategy msgs :=
    fun summary h => ⟨h.strategy, summary, h.given, h.nonempty⟩
  rcases compactMemory_cases reply msgs maxTokens strategy with
    ⟨hfits, heq⟩ | ⟨hover, hsummarized, -⟩ | ⟨hover, hpruned, heq⟩
  · rw [heq]
    refine ⟨fun _ hover => absurd hover hfits, fun _ => ⟨?_, fun _ _ _ => rfl, ?_⟩⟩
    · unfold Over at hfits
      exact .inl (by omega)
    · exact .inl (suffix_refl msgs)
  · obtain ⟨hstrategy, summary, hgiven, hne⟩ := hsummarized
    have hgive : Gives reply maxTokens strategy msgs summary := ⟨hstrategy, hgiven, hne⟩
    rw [compactMemory_gives hover hgive, promises_summary_iff hstrategy]
    constructor
    · refine fun hroom _ => ⟨fun other hother => ?_, fun hnone => absurd hgive (hnone summary)⟩
      rwa [Option.some.inj (hother.given.symm.trans hgiven)]
    · exact fun h => (h hover).1 summary hgive
  · rw [heq, promises_prune_iff hover]
    constructor
    · exact fun h _ => ⟨fun summary hgive => absurd (hgives summary hgive) hpruned, fun _ => h⟩
    · exact fun h => (h hover).2 fun summary hgive => hpruned (hgives summary hgive)

end Compaction

def twoTurns : Messages := [.user "a long question", .user "ok"]

theorem pruned_transcript_promises : Over 2 twoTurns ∧
    Promises 2 .prune twoTurns (compactMemory (fun _ => none) twoTurns 2 .prune).msgs := by
  refine ⟨by decide +kernel, (compactMemory_promises_iff _ twoTurns 2 .prune (by decide)).2 ?_⟩
  refine fun _ => ⟨fun _ hgives => ?_, fun _ hstrands => ?_⟩
  · cases hgives.strategy
  · obtain ⟨t, ht, htool⟩ := hstrands.last
    cases ht
    cases htool

def answeredCall : Messages :=
  [{ role := .assistant, toolCalls := [⟨"call", "lookup", some "the arguments"⟩] },
    { role := .tool, toolResults := [⟨"call", "the contents", false⟩] }]

/-- **Broken promises**: a summary is kept however long it is, and a call that is too large is
dropped without its answer. -/
theorem compaction_breaks_promises : ¬ Promises 2 .summarize twoTurns
        (compactMemory (fun _ => some "summary") twoTurns 2 .summarize).msgs ∧
      ¬ Promises 5 .prune answeredCall
        (compactMemory (fun _ => none) answeredCall 5 .prune).msgs := by
  constructor
  · intro h
    exact absurd h.size (by decide +kernel)
  · have hout : (compactMemory (fun _ => none) answeredCall 5 .prune).msgs =
        [{ role := .tool, toolResults := [⟨"call", "the contents", false⟩] }] := by
      have hover : ¬ ((5 : Int) ≤ 0 ∨ (estimateTokens answeredCall : Int) ≤ 5) := by decide +kernel
      have hpair : (estimateTokens answeredCall : Int) > 5 := by decide +kernel
      unfold compactMemory
      rw [if_neg hover]
      unfold answeredCall at hpair ⊢
      rw [pruneMemory, if_pos hpair, dropLeadingTools]
      · simp [pruneMemory]
      · simp
    rw [hout]
    intro h
    exact absurd (h.head _ rfl rfl) (by decide)

end Octo.Agent
