import Mathlib.Algebra.GroupWithZero.Nat
import Octo.Foundation.Trim

/-!
# Agent transcripts and their compaction

The conversation an `ai-agent` block keeps for a thread, and the two ways it is shortened when it
grows past its token budget.

* `WellFormed.dropWhile_suffix` — a well-formed transcript may be cut anywhere, provided the
  leading tool turns of the kept part go too; this is why summarizing is safe.
* `pruneMemory_final`, `pruneMemory_answered_iff` — pruning keeps a transcript well formed unless
  it ends in an answered call whose two turns alone exceed the budget; then the tool turn is left
  behind without its call.
-/

namespace Octo.Agent

open List
open Octo.Foundation (trimSpace)

/-! ## Messages -/

/-- Who a turn is attributed to. -/
inductive LLMRole where
  | user
  | assistant
  | tool
deriving DecidableEq

def LLMRole.text : LLMRole → String
  | .user => "user"
  | .assistant => "assistant"
  | .tool => "tool"

/-- `core.LLMToolCall`. `input` is the raw JSON of the arguments, `none` for a nil slice. -/
structure LLMToolCall where
  id : String
  name : String
  input : Option String := none
deriving DecidableEq

structure LLMToolResult where
  toolCallID : String
  content : String
  isError : Bool := false
deriving DecidableEq

/-- One turn of the conversation. -/
structure LLMMessage where
  role : LLMRole
  text : String := ""
  toolCalls : List LLMToolCall := []
  toolResults : List LLMToolResult := []
deriving DecidableEq

abbrev Messages := List LLMMessage

def LLMMessage.user (text : String) : LLMMessage := { role := .user, text := text }

/-! ## Well-formed conversations -/

def LLMMessage.Asks (m : LLMMessage) : Prop := m.role = .assistant ∧ m.toolCalls ≠ []

instance (m : LLMMessage) : Decidable m.Asks := inferInstanceAs (Decidable (_ ∧ _))

/-- `t` is the tool turn that answers exactly the calls of `m`, once each and in order. -/
def Answers (t m : LLMMessage) : Prop :=
  t.role = .tool ∧ t.toolResults.map (·.toolCallID) = m.toolCalls.map (·.id)

instance (t m : LLMMessage) : Decidable (Answers t m) := inferInstanceAs (Decidable (_ ∧ _))

def LLMMessage.Plain (m : LLMMessage) : Prop := m.role ≠ .tool ∧ ¬ m.Asks

def WellFormed : Messages → Prop
  | [] => True
  | [m] => m.Plain
  | m :: t :: rest =>
    (m.Asks ∧ Answers t m ∧ WellFormed rest) ∨ (m.Plain ∧ WellFormed (t :: rest))

instance (m : LLMMessage) : Decidable m.Plain := inferInstanceAs (Decidable (_ ∧ _))

instance decidableWellFormed : ∀ l, Decidable (WellFormed l)
  | [] => isTrue trivial
  | [m] => inferInstanceAs (Decidable m.Plain)
  | m :: t :: rest =>
    haveI := decidableWellFormed rest
    haveI := decidableWellFormed (t :: rest)
    inferInstanceAs (Decidable ((m.Asks ∧ Answers t m ∧ WellFormed rest) ∨ (_ ∧ _)))

open LLMMessage

theorem LLMMessage.plain_user (text : String) : (user text).Plain := by
  constructor <;> simp [user, LLMMessage.Asks]

variable {m : LLMMessage} {l : Messages}

theorem LLMMessage.Asks.not_plain (h : m.Asks) : ¬ m.Plain := fun hp => hp.2 h

@[simp] theorem wellFormed_nil : WellFormed [] := trivial

@[simp] theorem wellFormed_singleton (m : LLMMessage) : WellFormed [m] ↔ m.Plain := Iff.rfl

theorem wellFormed_cons_plain (h : m.Plain) (rest : Messages) :
    WellFormed (m :: rest) ↔ WellFormed rest := by
  cases rest with
  | nil => simp [h]
  | cons =>
    constructor
    · rintro (⟨ha, -, -⟩ | ⟨-, hr⟩)
      · exact absurd h ha.not_plain
      · exact hr
    · exact fun hr => .inr ⟨h, hr⟩

theorem wellFormed_cons_asks (h : m.Asks) (rest : Messages) :
    WellFormed (m :: rest) ↔ ∃ t rest', rest = t :: rest' ∧ Answers t m ∧ WellFormed rest' := by
  cases rest with
  | nil => simp [h.not_plain]
  | cons t rest =>
    constructor
    · rintro (⟨-, ht, hr⟩ | ⟨hp, -⟩)
      · exact ⟨t, rest, rfl, ht, hr⟩
      · exact absurd hp h.not_plain
    · rintro ⟨t', rest', heq, ht, hr⟩
      cases heq
      exact .inl ⟨h, ht, hr⟩

variable {rest : Messages}

theorem WellFormed.cases (h : WellFormed (m :: rest)) :
    (m.Plain ∧ WellFormed rest) ∨
      (m.Asks ∧ ∃ t rest', rest = t :: rest' ∧ Answers t m ∧ WellFormed rest') := by
  by_cases ha : m.Asks
  · exact .inr ⟨ha, (wellFormed_cons_asks ha rest).1 h⟩
  · cases rest with
    | nil => exact .inl ⟨h, trivial⟩
    | cons =>
      rcases h with ⟨h, -⟩ | h
      · exact absurd h ha
      · exact .inl h

theorem WellFormed.head_role (h : WellFormed (m :: rest)) :
    m.role ≠ .tool := by
  rcases h.cases with ⟨hp, -⟩ | ⟨ha, -⟩
  · exact hp.1
  · simp [ha.1]

open WellFormed

theorem WellFormed.induction {C : Messages → Prop} (nil : C [])
    (plain : ∀ m rest, m.Plain → WellFormed rest → C rest → C (m :: rest))
    (asks : ∀ m t rest, m.Asks → Answers t m → WellFormed rest → C rest → C (m :: t :: rest)) :
    ∀ l, WellFormed l → C l
  | [], _ => nil
  | m :: rest, h => by
    rcases h.cases with ⟨hp, hr⟩ | ⟨ha, t, rest', rfl, ht, hr⟩
    · exact plain m rest hp hr (induction nil plain asks rest hr)
    · exact asks m t rest' ha ht hr (induction nil plain asks rest' hr)
  termination_by l => l.length

theorem wellFormed_append (h : WellFormed l) (r : Messages) :
    WellFormed (l ++ r) ↔ WellFormed r := by
  refine induction (C := fun l => WellFormed (l ++ r) ↔ WellFormed r) ?_ ?_ ?_ l h
  · exact Iff.rfl
  · intro m rest hp _ ih
    rw [cons_append, wellFormed_cons_plain hp, ih]
  · intro m t rest ha ht _ ih
    rw [cons_append, wellFormed_cons_asks ha, ← ih]
    constructor
    · rintro ⟨t', rest', heq, -, hr⟩
      cases heq
      exact hr
    · exact fun hr => ⟨t, rest ++ r, rfl, ht, hr⟩

variable {a : LLMMessage} {maxTokens : Int}

theorem not_wellFormed_unanswered (ha : a.Asks) : ∀ l : Messages, ¬ WellFormed (l ++ [a])
  | [], h => ha.not_plain h
  | m :: rest, h => by
    rcases h.cases with ⟨-, hr⟩ | ⟨-, t, rest', heq, ht, hr⟩
    · exact not_wellFormed_unanswered ha rest hr
    · cases rest with
      | nil =>
        -- the only turn after the first one would have to be both the call and an answer
        cases heq
        exact absurd (ht.1.symm.trans ha.1) (by simp)
      | cons x rest =>
        cases heq
        exact not_wellFormed_unanswered ha rest hr

theorem wellFormed_concat_plain {p : LLMMessage} (hp : p.Plain) :
    ∀ l : Messages, WellFormed (l ++ [p]) ↔ WellFormed l
  | [] => by simp [hp]
  | m :: rest => by
    constructor
    · intro h
      rcases h.cases with ⟨hm, hr⟩ | ⟨ha, t, rest', heq, ht, hr⟩
      · exact (wellFormed_cons_plain hm _).2 ((wellFormed_concat_plain hp rest).1 hr)
      · cases rest with
        | nil =>
          cases heq
          exact absurd ht.1 hp.1
        | cons x rest =>
          cases heq
          exact (wellFormed_cons_asks ha _).2
            ⟨_, rest, rfl, ht, (wellFormed_concat_plain hp rest).1 hr⟩
    · intro h
      exact (wellFormed_append h [p]).2 hp

theorem WellFormed.dropWhile_suffix (h : WellFormed l) :
    ∀ s, s <:+ l → WellFormed (s.dropWhile (·.role = .tool)) := by
  have whole : ∀ l, WellFormed l → WellFormed (l.dropWhile (·.role = .tool)) := by
    intro l hl
    cases l with
    | nil => trivial
    | cons => simpa [List.dropWhile, hl.head_role] using hl
  refine induction
    (C := fun l => ∀ s, s <:+ l → WellFormed (s.dropWhile (·.role = .tool))) ?_ ?_ ?_ l h
  · intro s hs
    rw [suffix_nil.1 hs]
    trivial
  · intro m rest hp hr ih s hs
    rcases suffix_cons_iff.1 hs with rfl | hs
    · exact whole _ ((wellFormed_cons_plain hp rest).2 hr)
    · exact ih s hs
  · intro m t rest ha ht hr ih s hs
    rcases suffix_cons_iff.1 hs with rfl | hs
    · exact whole _ ((wellFormed_cons_asks ha _).2 ⟨t, rest, rfl, ht, hr⟩)
    · rcases suffix_cons_iff.1 hs with rfl | hs
      · -- the cut separates a call from its answer: the answer is dropped as well
        simpa [List.dropWhile, ht.1] using whole rest hr
      · exact ih s hs

theorem suffix_concat {s : Messages} (h : s <:+ l ++ [a]) (hne : s ≠ []) :
    ∃ front, s = front ++ [a] := by
  obtain ⟨pre, hpre⟩ := h
  obtain ⟨front, last, rfl⟩ := (eq_nil_or_concat s).resolve_left hne
  have hlast : last = a := by simpa using congrArg List.getLast? hpre
  exact ⟨front, by rw [concat_eq_append, hlast]⟩

/-! ## Token estimate -/

def messageChars (m : LLMMessage) : Nat := m.text.utf8ByteSize
    + (m.toolCalls.map fun c => (c.input.getD "").utf8ByteSize).sum
    + (m.toolResults.map fun r => r.content.utf8ByteSize).sum

def estimateTokens (msgs : Messages) : Nat := (msgs.map messageChars).sum / 4

theorem estimateTokens_suffix {s : Messages} (h : s <:+ l) :
    estimateTokens s ≤ estimateTokens l := by
  obtain ⟨pre, rfl⟩ := h
  apply Nat.div_le_div_right
  simp

/-! ## Pruning -/

/-- The inner loop of `pruneMemory`: while more than one turn is left, drop a leading tool turn. -/
def dropLeadingTools : Messages → Messages
  | m :: n :: rest =>
    if m.role = .tool then dropLeadingTools (n :: rest) else m :: n :: rest
  | l => l

theorem dropLeadingTools_suffix : ∀ l, dropLeadingTools l <:+ l
  | [] => suffix_refl _
  | [_] => suffix_refl _
  | m :: n :: rest => by
    unfold dropLeadingTools
    split
    · exact (dropLeadingTools_suffix (n :: rest)).trans (suffix_cons m _)
    · exact suffix_refl _

theorem dropLeadingTools_ne_nil : ∀ {l}, l ≠ [] → dropLeadingTools l ≠ []
  | [], h => absurd rfl h
  | [_], h => h
  | m :: n :: rest, _ => by
    unfold dropLeadingTools
    split
    · exact dropLeadingTools_ne_nil (by simp)
    · simp

theorem dropLeadingTools_of_head (h : m.role ≠ .tool) (rest : Messages) :
    dropLeadingTools (m :: rest) = m :: rest := by
  cases rest with
  | nil => rfl
  | cons => simp [dropLeadingTools, h]

/-- Drop the oldest turns until the transcript fits, keeping at least one. -/
def pruneMemory (maxTokens : Int) : Messages → Messages
  | m :: n :: rest =>
    if (estimateTokens (m :: n :: rest) : Int) > maxTokens then
      pruneMemory maxTokens (dropLeadingTools (n :: rest))
    else m :: n :: rest
  | l => l
  termination_by l => l.length
  decreasing_by exact Nat.lt_succ_of_le (dropLeadingTools_suffix (n :: rest)).length_le

theorem pruneMemory_suffix (maxTokens : Int) (l : Messages) :
    pruneMemory maxTokens l <:+ l := by
  fun_induction pruneMemory maxTokens l with
  | case1 m n rest _ ih =>
    exact (ih.trans (dropLeadingTools_suffix _)).trans (suffix_cons m _)
  | case2 => exact suffix_refl _
  | case3 => exact suffix_refl _

theorem pruneMemory_ne_nil (maxTokens : Int) (l : Messages) (h : l ≠ []) :
    pruneMemory maxTokens l ≠ [] := by
  fun_induction pruneMemory maxTokens l with
  | case1 m n rest _ ih => exact ih (dropLeadingTools_ne_nil (by simp))
  | case2 => simp
  | case3 => exact h

theorem pruneMemory_fits (maxTokens : Int) (l : Messages) :
    (estimateTokens (pruneMemory maxTokens l) : Int) ≤ maxTokens ∨
      (pruneMemory maxTokens l).length ≤ 1 := by
  fun_induction pruneMemory maxTokens l with
  | case1 m n rest _ ih => exact ih
  | case2 m n rest hfit => exact .inl (by omega)
  | case3 l hne =>
    right
    match l with
    | [] => simp
    | [_] => simp
    | m :: n :: rest => exact absurd rfl (hne m n rest)

/-- **What pruning does to a well-formed transcript**: it stays one, unless it ended in an answered
call over budget on its own. -/
theorem pruneMemory_cases (maxTokens : Int) (l : Messages) (h : WellFormed l) :
    WellFormed (pruneMemory maxTokens l) ∨
      ∃ pre a t, l = pre ++ [a, t] ∧ t.role = .tool ∧ pruneMemory maxTokens l = [t] ∧
        (estimateTokens [a, t] : Int) > maxTokens := by
  fun_induction pruneMemory maxTokens l with
  | case2 => exact .inl h
  | case3 => exact .inl h
  | case1 m n rest hover ih =>
    rcases h.cases with ⟨-, hr⟩ | ⟨-, t, rest', heq, ht, hr⟩
    · rw [dropLeadingTools_of_head hr.head_role] at ih ⊢
      rcases ih hr with hwf | ⟨pre, a, t, hl, hrest⟩
      · exact .inl hwf
      · exact .inr ⟨m :: pre, a, t, by simp [hl], hrest⟩
    · cases heq
      cases rest with
      | nil => exact .inr ⟨[], m, n, rfl, ht.1, by simp [dropLeadingTools, pruneMemory], hover⟩
      | cons x rest =>
        have hdrop : dropLeadingTools (n :: x :: rest) = x :: rest := by
          simp [dropLeadingTools, if_pos ht.1, dropLeadingTools_of_head hr.head_role]
        rw [hdrop] at ih ⊢
        rcases ih hr with hwf | ⟨pre, a, t, hl, hrest⟩
        · exact .inl hwf
        · exact .inr ⟨m :: n :: pre, a, t, by simp [hl], hrest⟩

theorem pruneMemory_final {p : LLMMessage} (hp : p.Plain) (h : WellFormed (l ++ [p])) :
    WellFormed (pruneMemory maxTokens (l ++ [p])) := by
  rcases pruneMemory_cases maxTokens _ h with hwf | ⟨pre, a, t, hl, ht, -, -⟩
  · exact hwf
  · have hlast : p = t := by simpa using congrArg List.getLast? hl
    exact absurd (hlast ▸ ht) hp.1

theorem pruneMemory_answered_iff {t : LLMMessage} (h : WellFormed l) (ha : a.Asks)
    (ht : Answers t a) : WellFormed (pruneMemory maxTokens (l ++ [a, t])) ↔
      (estimateTokens [a, t] : Int) ≤ maxTokens := by
  have hl : WellFormed (l ++ [a, t]) := (wellFormed_append h _).2 (.inl ⟨ha, ht, trivial⟩)
  constructor
  · intro hwf
    have hsuffix := pruneMemory_suffix maxTokens (l ++ [a, t])
    have hne := pruneMemory_ne_nil maxTokens (l ++ [a, t]) (by simp)
    have hfits := pruneMemory_fits maxTokens (l ++ [a, t])
    generalize pruneMemory maxTokens (l ++ [a, t]) = kept at hwf hsuffix hne hfits
    rcases suffix_or_suffix_of_suffix hsuffix (suffix_append l [a, t]) with hs | hs
    · -- the kept part is among the last two turns, and a lone tool turn is not well formed
      rcases suffix_cons_iff.1 hs with rfl | hs
      · rcases hfits with hfits | hfits
        · exact hfits
        · simp at hfits
      · rcases suffix_cons_iff.1 hs with rfl | hs
        · exact absurd ht.1 hwf.1
        · exact absurd (suffix_nil.1 hs) hne
    · have hle := estimateTokens_suffix hs
      have hlen := hs.length_le
      simp only [length_cons] at hlen
      omega
  · intro hle
    rcases pruneMemory_cases maxTokens _ hl with hwf | ⟨pre, a', t', heq, -, -, hover⟩
    · exact hwf
    · have hlast : [a, t] = [a', t'] := by
        have := congrArg (fun l => l.reverse.take 2) heq
        simp at this
        simp [this]
      rw [← hlast] at hover
      omega

theorem pruneMemory_unanswered (ha : a.Asks) : ¬ WellFormed (pruneMemory maxTokens (l ++ [a])) := by
  obtain ⟨front, hkept⟩ := suffix_concat (pruneMemory_suffix maxTokens (l ++ [a]))
    (pruneMemory_ne_nil maxTokens (l ++ [a]) (by simp))
  rw [hkept]
  exact not_wellFormed_unanswered ha front

/-! ## Summarizing -/

def turnText (m : LLMMessage) : String :=
  (if m.text ≠ "" then m.role.text ++ ": " ++ m.text ++ "\n" else "")
    ++ String.join (m.toolCalls.map fun c =>
        "assistant called tool " ++ c.name ++ "(" ++ c.input.getD "" ++ ")\n")
    ++ String.join (m.toolResults.map fun r => "tool result: " ++ r.content ++ "\n")

def summaryRequest (msgs : Messages) : Messages :=
  [.user (String.join (msgs.map turnText))]

variable (reply : Messages → Option String)

/-- Given how the model replies: the trimmed text, or `none` on an error. -/
def summarizeTurns (msgs : Messages) :
    Option String :=
  (reply (summaryRequest msgs)).map trimSpace

def cutOver (keepBudget : Int) : Messages → Nat
  | [] => 0
  | m :: rest =>
    if (estimateTokens (m :: rest) : Int) > keepBudget then cutOver keepBudget rest + 1 else 0

/-- The cut of `summarizeMemory`: the kept part fits and does not start with a tool turn. -/
def summaryCut (keepBudget : Int) (msgs : Messages) : Nat :=
  let cut := cutOver keepBudget msgs
  cut + ((msgs.drop cut).takeWhile (·.role = .tool)).length

/-- A compacted transcript with the message lists sent to the model on the way. -/
structure Compacted where
  msgs : Messages
  requests : List Messages := []

/-- Fold all but the recent turns that fit half the budget into one summary turn; prune when the
model gives no summary. -/
def summarizeMemory (maxTokens : Int)
    (msgs : Messages) : Compacted :=
  let cut := summaryCut (maxTokens.tdiv 2) msgs
  if cut = 0 then { msgs := msgs }
  else
    let requests := [summaryRequest (msgs.take cut)]
    match summarizeTurns reply (msgs.take cut) with
    | none => { msgs := pruneMemory maxTokens msgs, requests := requests }
    | some summary =>
      if summary = "" then { msgs := pruneMemory maxTokens msgs, requests := requests }
      else
        { msgs := .user ("Summary of earlier conversation:\n" ++ summary) :: msgs.drop cut
          requests := requests }

/-- The two compaction strategies `configureAgentMemory` admits. -/
inductive Compaction where
  | prune
  | summarize
deriving DecidableEq

def compactMemory (msgs : Messages)
    (maxTokens : Int) (strategy : Compaction) : Compacted :=
  if maxTokens ≤ 0 ∨ (estimateTokens msgs : Int) ≤ maxTokens then { msgs := msgs }
  else
    match strategy with
    | .summarize => summarizeMemory reply maxTokens msgs
    | .prune => { msgs := pruneMemory maxTokens msgs }

def Over (maxTokens : Int) (msgs : Messages) : Prop :=
  0 < maxTokens ∧ maxTokens < estimateTokens msgs

instance (maxTokens : Int) (msgs : Messages) : Decidable (Over maxTokens msgs) :=
  inferInstanceAs (Decidable (_ ∧ _))

def Summarized (maxTokens : Int)
    (strategy : Compaction) (msgs : Messages) : Prop :=
  strategy = .summarize ∧
    ∃ s, summarizeTurns reply (msgs.take (summaryCut (maxTokens.tdiv 2) msgs)) = some s ∧ s ≠ ""

theorem cutOver_fits (keepBudget : Int) : ∀ msgs : Messages,
    msgs.drop (cutOver keepBudget msgs) = [] ∨
      (estimateTokens (msgs.drop (cutOver keepBudget msgs)) : Int) ≤ keepBudget
  | [] => .inl rfl
  | m :: rest => by
    unfold cutOver
    split
    · simpa using cutOver_fits keepBudget rest
    · exact .inr (by simp; omega)

theorem drop_summaryCut (keepBudget : Int) (msgs : Messages) :
    msgs.drop (summaryCut keepBudget msgs) =
      (msgs.drop (cutOver keepBudget msgs)).dropWhile (·.role = .tool) := by
  unfold summaryCut
  rw [← drop_drop]
  generalize msgs.drop (cutOver keepBudget msgs) = l
  have hsplit := takeWhile_append_dropWhile (p := fun m => m.role = .tool) (l := l)
  exact (congrArg (List.drop _) hsplit.symm).trans drop_left

variable {msgs : Messages}

theorem summaryCut_pos (h : Over maxTokens msgs) :
    summaryCut (maxTokens.tdiv 2) msgs ≠ 0 := by
  intro hcut
  have hzero : cutOver (maxTokens.tdiv 2) msgs = 0 := by
    simp only [summaryCut] at hcut
    omega
  have hhalf : maxTokens.tdiv 2 ≤ maxTokens := by
    have hpos := h.1
    rw [Int.tdiv_eq_ediv_of_nonneg (by omega)]
    omega
  have hover := h.2
  rcases cutOver_fits (maxTokens.tdiv 2) msgs with hnil | hfits
  · rw [hzero] at hnil
    subst hnil
    have := h.1
    simp [estimateTokens] at hover
    omega
  · rw [hzero, drop_zero] at hfits
    omega

variable (reply : Messages → Option String) (msgs : Messages)

theorem compactMemory_cases
    (maxTokens : Int) (strategy : Compaction) :
    (¬ Over maxTokens msgs ∧ (compactMemory reply msgs maxTokens strategy).msgs = msgs) ∨
    (Over maxTokens msgs ∧ Summarized reply maxTokens strategy msgs ∧
      ∃ s, (compactMemory reply msgs maxTokens strategy).msgs =
        .user s :: msgs.drop (summaryCut (maxTokens.tdiv 2) msgs)) ∨
    (Over maxTokens msgs ∧ ¬ Summarized reply maxTokens strategy msgs ∧
      (compactMemory reply msgs maxTokens strategy).msgs = pruneMemory maxTokens msgs) := by
  unfold compactMemory
  split
  next h =>
    exact .inl ⟨fun ho => by have := ho.1; have := ho.2; omega, rfl⟩
  next h =>
    have hover : Over maxTokens msgs := by unfold Over; omega
    right
    cases strategy with
    | prune => exact .inr ⟨hover, by simp [Summarized], rfl⟩
    | summarize =>
      simp only [summarizeMemory, if_neg (summaryCut_pos hover)]
      split
      next hnone =>
        exact .inr ⟨hover, by simp [Summarized, hnone], rfl⟩
      next s hsome =>
        split
        next hempty =>
          exact .inr ⟨hover, by simp [Summarized, hsome, hempty], rfl⟩
        next hne =>
          exact .inl ⟨hover, ⟨rfl, s, hsome, hne⟩, _, rfl⟩

theorem compactMemory_requests
    (maxTokens : Int) (strategy : Compaction) :
    ∀ req ∈ (compactMemory reply msgs maxTokens strategy).requests, WellFormed req := by
  intro req hreq
  obtain ⟨older, rfl⟩ : ∃ older, req = summaryRequest older := by
    unfold compactMemory summarizeMemory at hreq
    grind
  exact plain_user _

theorem wellFormed_summarized {msgs : Messages} (h : WellFormed msgs) (s : String)
    (keepBudget : Int) : WellFormed (.user s :: msgs.drop (summaryCut keepBudget msgs)) := by
  rw [wellFormed_cons_plain (plain_user s), drop_summaryCut]
  exact h.dropWhile_suffix _ (drop_suffix _ _)

theorem drop_cutOver_concat (keepBudget : Int) (a : LLMMessage) : ∀ l : Messages,
    (l ++ [a]).drop (cutOver keepBudget (l ++ [a])) = [] ↔ keepBudget < estimateTokens [a]
  | [] => by
    simp only [nil_append, cutOver]
    split <;> simp <;> omega
  | m :: l => by
    have ih := drop_cutOver_concat keepBudget a l
    have hle := estimateTokens_suffix (suffix_append (m :: l) [a])
    simp only [cons_append] at hle ⊢
    unfold cutOver
    split
    · simpa using ih
    · simp
      omega

theorem wellFormed_kept_unanswered_iff {keepBudget : Int} (ha : a.Asks) :
    WellFormed ((l ++ [a]).drop (summaryCut keepBudget (l ++ [a]))) ↔
      keepBudget < estimateTokens [a] := by
  rw [drop_summaryCut, ← drop_cutOver_concat keepBudget a l]
  have hsuffix := drop_suffix (cutOver keepBudget (l ++ [a])) (l ++ [a])
  generalize (l ++ [a]).drop (cutOver keepBudget (l ++ [a])) = kept at hsuffix ⊢
  constructor
  · intro hwf
    by_contra hne
    -- the kept part ends in the call, which is no tool turn and so is never dropped
    obtain ⟨front, rfl⟩ := suffix_concat hsuffix hne
    have hdrop : (front ++ [a]).dropWhile (·.role = .tool) ≠ [] := by
      rw [ne_eq, dropWhile_eq_nil_iff]
      exact fun hall => absurd (hall a (by simp)) (by simp [ha.1])
    obtain ⟨front', hkept⟩ := suffix_concat (List.dropWhile_suffix _) hdrop
    rw [hkept] at hwf
    exact not_wellFormed_unanswered ha front' hwf
  · rintro rfl
    trivial

end Octo.Agent
