import Mathlib.Data.List.Induction
import LLMQore.Core.BaseMessage

/-!
# LLMQore.Core.ThinkingBlocks

The blocks of a message are known by their indices: the set of the thinking blocks that were
announced and the thinking block that deltas go to are kept as indices, and a removal moves the
blocks that stay to the front and renumbers both.

Here every block also gets a name of its own when it is added, which it keeps wherever it is
moved. What the indices refer to is then a matter of names: an operation on the indices is right
if it is the obvious operation on the names.
-/

namespace LLMQore

/-! ## Keeping some of a list -/

namespace Indices

variable {α β : Type}

/-- The elements at some indices. -/
def pick (xs : List α) (is : List Nat) : List α := is.filterMap (xs[·]?)

theorem pick_append (xs : List α) (is js : List Nat) :
    pick xs (is ++ js) = pick xs is ++ pick xs js := List.filterMap_append

/-- The elements at the indices that hold what is asked are the elements that are it. -/
theorem pick_filter (xs : List α) (q : α → Bool) :
    pick xs ((List.range xs.length).filter fun k => xs[k]?.any q) = xs.filter q := by
  induction xs using List.reverseRecOn with
  | nil => rfl
  | append_singleton xs x ih =>
      have hfront : ((List.range xs.length).filter fun k => (xs ++ [x])[k]?.any q) =
          (List.range xs.length).filter fun k => xs[k]?.any q :=
        List.filter_congr fun k hk => by
          rw [List.getElem?_append_left (List.mem_range.mp hk)]
      have hpick : pick (xs ++ [x]) ((List.range xs.length).filter fun k => xs[k]?.any q) =
          pick xs ((List.range xs.length).filter fun k => xs[k]?.any q) :=
        List.filterMap_congr fun k hk => by
          rw [List.getElem?_append_left (List.mem_range.mp (List.mem_of_mem_filter hk))]
      rw [List.length_append, List.length_singleton, List.range_succ, List.filter_append, hfront,
        pick_append, hpick, ih, List.filter_append]
      cases hq : q x <;> simp [pick, hq]

theorem getElem?_pick {xs : List α} {is : List Nat} (his : ∀ i ∈ is, i < xs.length) (k : Nat) :
    (pick xs is)[k]? = is[k]?.bind fun i => xs[i]? := by
  induction is generalizing k with
  | nil => rfl
  | cons i is ih =>
      have hrest := ih fun j hj => his j (List.mem_cons_of_mem _ hj)
      obtain ⟨x, hi⟩ : ∃ x, xs[i]? = some x :=
        ⟨_, List.getElem?_eq_getElem (his i List.mem_cons_self)⟩
      have hpick : pick xs (i :: is) = x :: pick xs is := List.filterMap_cons_some hi
      cases k with
      | zero => simp [hpick, hi]
      | succ k => simpa [hpick] using hrest k

/-- What is picked from what was picked. -/
theorem pick_pick {xs : List α} {is : List Nat} (his : ∀ i ∈ is, i < xs.length) (ks : List Nat) :
    pick (pick xs is) ks = pick xs (pick is ks) := by
  rw [pick, funext (getElem?_pick his), pick, pick, List.filterMap_filterMap]

/-- Where no element occurs twice, an element is among the picked ones if its index is. -/
theorem mem_pick_iff {xs : List α} (hxs : xs.Nodup) {is : List Nat} {i : Nat} {x : α}
    (hi : xs[i]? = some x) : x ∈ pick xs is ↔ i ∈ is := by
  rw [pick, List.mem_filterMap]
  constructor
  · rintro ⟨j, hj, hx⟩
    have hlt := (List.getElem?_eq_some_iff.mp hi).1
    have hij : i = j := List.getElem?_inj hlt hxs |>.mp (hi.trans hx.symm)
    rwa [hij]
  · exact fun h => ⟨i, h, hi⟩

theorem map_pick (f : α → β) (xs : List α) (is : List Nat) :
    (pick xs is).map f = pick (xs.map f) is := by
  rw [pick, List.map_filterMap, pick]
  exact List.filterMap_congr fun i _ => by rw [List.getElem?_map]

theorem nodup_pick {xs : List α} (hxs : xs.Nodup) {is : List Nat} (his : is.Nodup) :
    (pick xs is).Nodup := by
  refine his.filterMap fun i j x hi hj => ?_
  have hlt := (List.getElem?_eq_some_iff.mp hi).1
  exact (List.getElem?_inj hlt hxs).mp ((Option.mem_def.mp hi).trans (Option.mem_def.mp hj).symm)

theorem length_pick {xs : List α} {is : List Nat} (his : ∀ i ∈ is, i < xs.length) :
    (pick xs is).length = is.length := by
  induction is with
  | nil => rfl
  | cons i is ih =>
      rw [pick, List.filterMap_cons_some
        (List.getElem?_eq_getElem (his i List.mem_cons_self)), List.length_cons, List.length_cons]
      exact congrArg (· + 1) (ih fun j hj => his j (List.mem_cons_of_mem _ hj))

theorem getElem?_of_idxOf? {is : List Nat} {i k : Nat} (h : is.idxOf? i = some k) :
    is[k]? = some i := by
  obtain ⟨hlt, heq, -⟩ := List.findIdx?_eq_some_iff_getElem.mp h
  rw [List.getElem?_eq_getElem hlt, beq_iff_eq.mp heq]

/-- What is kept of the picked elements if others are picked to be kept. -/
theorem filter_pick [DecidableEq α] {xs : List α} (hxs : xs.Nodup) (is js : List Nat) :
    (pick xs is).filter (· ∈ pick xs js) = pick xs (is.filter (· ∈ js)) := by
  induction is with
  | nil => rfl
  | cons i is ih =>
      cases hi : xs[i]? with
      | none =>
          have hskip : pick xs (i :: is) = pick xs is := List.filterMap_cons_none hi
          rw [hskip, ih, List.filter_cons]
          split
          · exact (List.filterMap_cons_none hi).symm
          · rfl
      | some x =>
          have hhead : pick xs (i :: is) = x :: pick xs is := List.filterMap_cons_some hi
          rw [hhead, List.filter_cons, List.filter_cons, ih]
          simp only [mem_pick_iff hxs hi]
          split
          · exact (List.filterMap_cons_some hi).symm
          · rfl

end Indices

/-! ## The loop of a removal -/

namespace BaseMessage

/-- What `removeBlocksIf` keeps while its loop runs. -/
structure Removal where
  blocks : List TurnContent
  remapped : List Nat := []
  thinkingIndex : Option Nat := none
  kept : Nat := 0

section Removal

-- What is left of a block that was moved elsewhere.
variable (movedFrom : TurnContent → TurnContent)

/-- One turn of the loop: a block that stays moves to the front. -/
def Removal.turn (m : BaseMessage) (predicate : TurnContent → Bool) (r : Removal) (i : Nat) :
    Removal :=
  match r.blocks[i]? with
  | none => r
  | some block =>
      if predicate block then r
      else
        { blocks :=
            if r.kept ≠ i then (r.blocks.set i (movedFrom block)).set r.kept block else r.blocks
          remapped := if i ∈ m.notifiedThinking then r.remapped ++ [r.kept] else r.remapped
          thinkingIndex :=
            if m.currentThinkingIndex = some i then some r.kept else r.thinkingIndex
          kept := r.kept + 1 }

/-- `removeBlocksIf`, as its loop runs. -/
def removeInPlace (m : BaseMessage) (predicate : TurnContent → Bool) : BaseMessage :=
  let r := (List.range m.currentBlocks.length).foldl (Removal.turn movedFrom m predicate)
    { blocks := m.currentBlocks }
  { m with
    currentBlocks := r.blocks.take r.kept
    notifiedThinking := r.remapped
    currentThinkingIndex := r.thinkingIndex }

/-- The indices of the blocks that stay, among the first `n`. -/
def staying (m : BaseMessage) (predicate : TurnContent → Bool) (n : Nat) : List Nat :=
  (List.range n).filter fun i => m.currentBlocks[i]?.any fun b => !predicate b

/-- What the loop has reached after `n` turns: the blocks that stay stand at the front, and those
that were not looked at are where they were. -/
structure Removal.After (m : BaseMessage) (predicate : TurnContent → Bool) (n : Nat)
    (r : Removal) : Prop where
  length : r.blocks.length = m.currentBlocks.length
  kept : r.kept = (m.staying predicate n).length
  front : r.blocks.take r.kept = Indices.pick m.currentBlocks (m.staying predicate n)
  rest : ∀ i, n ≤ i → r.blocks[i]? = m.currentBlocks[i]?
  remapped : r.remapped = (List.range r.kept).filter fun k =>
    (m.staying predicate n)[k]?.any (· ∈ m.notifiedThinking)
  thinkingIndex : r.thinkingIndex = m.currentThinkingIndex.bind ((m.staying predicate n).idxOf? ·)

variable {m : BaseMessage} {predicate : TurnContent → Bool}

theorem staying_succ_of_removed {n : Nat} {b : TurnContent} (hb : m.currentBlocks[n]? = some b)
    (hp : predicate b = true) : m.staying predicate (n + 1) = m.staying predicate n := by
  rw [staying, List.range_succ, List.filter_append]
  simp [staying, hb, hp]

theorem staying_succ_of_kept {n : Nat} {b : TurnContent} (hb : m.currentBlocks[n]? = some b)
    (hp : predicate b = false) : m.staying predicate (n + 1) = m.staying predicate n ++ [n] := by
  rw [staying, List.range_succ, List.filter_append]
  simp [staying, hb, hp]

theorem lt_of_mem_staying {n i : Nat} (hi : i ∈ m.staying predicate n) : i < n :=
  List.mem_range.mp (List.mem_of_mem_filter hi)

theorem length_staying_le (m : BaseMessage) (predicate : TurnContent → Bool) (n : Nat) :
    (m.staying predicate n).length ≤ n := by
  exact (List.length_filter_le _ _).trans (List.length_range (n := n)).le

theorem Removal.After.turn {n : Nat} {r : Removal} (h : r.After m predicate n)
    (hn : n < m.currentBlocks.length) :
    (Removal.turn movedFrom m predicate r n).After m predicate (n + 1) := by
  have hb : m.currentBlocks[n]? = some m.currentBlocks[n] := List.getElem?_eq_getElem hn
  have hr : r.blocks[n]? = some m.currentBlocks[n] := (h.rest n (Nat.le_refl n)).trans hb
  have hkept : r.kept ≤ n := h.kept ▸ length_staying_le m predicate n
  unfold Removal.turn
  simp only [hr]
  cases hp : predicate m.currentBlocks[n] with
  | true =>
      have hsame := staying_succ_of_removed hb hp
      exact ⟨h.length, by rw [hsame]; exact h.kept, by rw [hsame]; exact h.front,
        fun i hi => h.rest i (by omega), by rw [hsame]; exact h.remapped,
        by rw [hsame]; exact h.thinkingIndex⟩
  | false =>
      have hmore := staying_succ_of_kept hb hp
      rw [if_neg Bool.false_ne_true]
      generalize hmoved : (if r.kept ≠ n then
        (r.blocks.set n (movedFrom m.currentBlocks[n])).set r.kept m.currentBlocks[n]
        else r.blocks) = moved
      have hlength : moved.length = m.currentBlocks.length := by
        rw [← hmoved]
        split
        · simpa using h.length
        · exact h.length
      -- a block that is moved goes to an index that was looked at, so it hides none of the rest
      have hget : ∀ i, moved[i]? =
          if i = r.kept then some m.currentBlocks[n]
          else if i = n then some (movedFrom m.currentBlocks[n]) else r.blocks[i]? := by
        intro i
        rw [← hmoved]
        by_cases hne : r.kept = n
        · rw [if_neg (not_not.mpr hne), hne]
          by_cases hi : i = n
          · rw [if_pos hi, hi, hr]
          · rw [if_neg hi, if_neg hi]
        · rw [if_pos hne, List.getElem?_set, List.getElem?_set, List.length_set, h.length]
          have hlt : r.kept < m.currentBlocks.length := by omega
          by_cases hi : r.kept = i
          · simp [← hi, hlt]
          · by_cases hi' : n = i
            · subst hi'
              simp [hi, hn, Ne.symm hi]
            · simp [hi, hi', Ne.symm hi, Ne.symm hi']
      refine ⟨hlength, by simp [hmore, h.kept], ?_, fun i hi => ?_, ?_, ?_⟩
      · show moved.take (r.kept + 1) = _
        have hfront : moved.take r.kept = r.blocks.take r.kept := by
          refine List.ext_getElem? fun i => ?_
          rw [List.getElem?_take, List.getElem?_take]
          split
          · rw [hget, if_neg (by omega), if_neg (by omega)]
          · rfl
        rw [List.take_add_one, hfront, hget, if_pos rfl, h.front, hmore, Indices.pick_append]
        simp [Indices.pick, hb]
      · show moved[i]? = _
        rw [hget, if_neg (by omega), if_neg (by omega), h.rest i (by omega)]
      · show (if n ∈ m.notifiedThinking then r.remapped ++ [r.kept] else r.remapped) =
          (List.range (r.kept + 1)).filter _
        have hfront : ((List.range r.kept).filter fun k =>
            (m.staying predicate n ++ [n])[k]?.any (· ∈ m.notifiedThinking)) = r.remapped := by
          rw [h.remapped]
          refine List.filter_congr fun k hk => ?_
          rw [List.getElem?_append_left (h.kept ▸ List.mem_range.mp hk)]
        have hlast : (m.staying predicate n ++ [n])[r.kept]? = some n := by
          rw [h.kept]
          simp
        rw [hmore, List.range_succ, List.filter_append, hfront, List.filter_cons, hlast]
        by_cases hmem : n ∈ m.notifiedThinking <;> simp [hmem]
      · show (if m.currentThinkingIndex = some n then some r.kept else r.thinkingIndex) = _
        rw [h.thinkingIndex, hmore, h.kept]
        cases hc : m.currentThinkingIndex with
        | none => simp
        | some c =>
            have hnew : n ∉ m.staying predicate n := fun hmem =>
              Nat.lt_irrefl n (lt_of_mem_staying hmem)
            by_cases hcn : c = n
            · subst hcn
              have hnone : (m.staying predicate c).findIdx? (· == c) = none :=
                List.findIdx?_eq_none_iff.mpr fun i hi =>
                  beq_eq_false_iff_ne.mpr fun heq => hnew (heq ▸ hi)
              simp [List.idxOf?, List.findIdx?_append, hnone]
            · simp [hcn, List.idxOf?, List.findIdx?_append, Ne.symm hcn]

theorem Removal.after (m : BaseMessage) (predicate : TurnContent → Bool) {n : Nat}
    (hn : n ≤ m.currentBlocks.length) :
    ((List.range n).foldl (Removal.turn movedFrom m predicate)
      { blocks := m.currentBlocks }).After m predicate n := by
  induction n with
  | zero => exact ⟨rfl, rfl, rfl, fun _ _ => rfl, rfl, by cases m.currentThinkingIndex <;> rfl⟩
  | succ n ih =>
      rw [List.range_succ, List.foldl_append]
      exact (ih (Nat.le_of_succ_le hn)).turn movedFrom hn

theorem map_fst_keepBlocks (predicate : TurnContent → Bool) (blocks : List TurnContent) (i : Nat) :
    (keepBlocks predicate i blocks).map Prod.fst =
      ((List.range blocks.length).filter fun k => blocks[k]?.any fun b => !predicate b).map
        (i + ·) := by
  induction blocks generalizing i with
  | nil => rfl
  | cons b blocks ih =>
      have hshift : ((fun x => i + x) ∘ Nat.succ) = fun x => i + 1 + x := by
        funext x
        simp only [Function.comp_apply]
        omega
      rw [keepBlocks, List.length_cons, List.range_succ_eq_map, List.filter_cons, List.filter_map]
      cases hp : predicate b with
      | true => simp [hp, ih, Function.comp_def, Nat.add_comm, Nat.add_left_comm]
      | false => simp [hp, ih, Function.comp_def, Nat.add_comm, Nat.add_left_comm]

theorem map_snd_keepBlocks (predicate : TurnContent → Bool) (blocks : List TurnContent) (i : Nat) :
    (keepBlocks predicate i blocks).map Prod.snd = blocks.filter fun b => !predicate b := by
  induction blocks generalizing i with
  | nil => rfl
  | cons b blocks ih =>
      rw [keepBlocks]
      cases hp : predicate b <;> simp [hp, ih]

/-- The loop moves the blocks that stay and renumbers what refers to them. -/
theorem removeInPlace_eq (m : BaseMessage) (predicate : TurnContent → Bool) :
    m.removeInPlace movedFrom predicate = m.removeBlocksIf predicate := by
  have h := Removal.after movedFrom m predicate (Nat.le_refl m.currentBlocks.length)
  have hfst : (keepBlocks predicate 0 m.currentBlocks).map Prod.fst =
      m.staying predicate m.currentBlocks.length := by
    rw [map_fst_keepBlocks]
    simp [staying]
  simp only [removeInPlace, removeBlocksIf, map_snd_keepBlocks, hfst, h.front, h.remapped,
    h.thinkingIndex]
  rw [h.kept, staying, Indices.pick_filter]

end Removal

end BaseMessage

namespace TurnContent

/-- The blocks that are announced: the model's thinking, or a redacted piece of it. -/
def isReasoning : TurnContent → Bool
  | .thinking _ => true
  | .redactedThinking _ => true
  | _ => false

/-- What there is to announce of a block. -/
def notice : TurnContent → Option PendingThinkingNotification
  | .thinking c => some ⟨c.thinking, c.signature⟩
  | .redactedThinking c => some ⟨"", c.signature⟩
  | _ => none

end TurnContent

/-! ## Blocks with names -/

/-- An operation on a message. A text, a thinking block, a redacted one or a tool use is also
changed at an index its provider remembers. -/
inductive BlockOp where
  | addCurrentContent (content : TurnContent)
  | appendTextDelta (delta : String)
  | appendThinkingDelta (delta : String)
  | changeText (index : Nat) (f : TextContent → TextContent)
  | changeThinking (index : Nat) (f : ThinkingContent → ThinkingContent)
  | changeRedactedThinking (index : Nat) (f : RedactedThinkingContent → RedactedThinkingContent)
  | changeToolUse (index : Nat) (f : ToolUseContent → ToolUseContent)
  | takePendingThinkingNotifications
  | removeBlocksIf (predicate : TurnContent → Bool)
  | clearBlocks
  | startNewContinuation

/-- A message, the name of each of its blocks, and what was announced of which block so far. -/
structure NamedMessage where
  message : BaseMessage := {}
  names : List Nat := []
  nextName : Nat := 0
  announced : List (Nat × PendingThinkingNotification) := []

namespace NamedMessage

/-- The message after an operation that removes nothing: the blocks it added get new names. -/
def grow (s : NamedMessage) (m : BaseMessage) : NamedMessage :=
  let added := m.currentBlocks.length - s.names.length
  { s with
    message := m
    names := s.names ++ List.range' s.nextName added
    nextName := s.nextName + added }

/-- The indices a call marks as announced. -/
def marked (m m' : BaseMessage) : List Nat :=
  (List.range m.currentBlocks.length).filter fun i =>
    i ∈ m'.notifiedThinking ∧ i ∉ m.notifiedThinking

def step (movedFrom : TurnContent → TurnContent) (s : NamedMessage) : BlockOp → NamedMessage
  | .addCurrentContent content => s.grow (s.message.addCurrentContent content).2
  | .appendTextDelta delta => s.grow (s.message.appendTextDelta delta)
  | .appendThinkingDelta delta => s.grow (s.message.appendThinkingDelta delta)
  | .changeText index f => s.grow (s.message.changeBlock index (.onText f))
  | .changeThinking index f => s.grow (s.message.changeBlock index (.onThinking f))
  | .changeRedactedThinking index f =>
      s.grow (s.message.changeBlock index (.onRedactedThinking f))
  | .changeToolUse index f => s.grow (s.message.changeBlock index (.onToolUse f))
  | .takePendingThinkingNotifications =>
      let r := s.message.takePendingThinkingNotifications
      { s with
        message := r.2
        announced := s.announced ++ (Indices.pick s.names (marked s.message r.2)).zip r.1 }
  | .removeBlocksIf predicate =>
      { s with
        message := s.message.removeInPlace movedFrom predicate
        names := ((s.names.zip s.message.currentBlocks).filter fun x => !predicate x.2).map
          Prod.fst }
  | .clearBlocks => { s with message := s.message.clearBlocks, names := [] }
  | .startNewContinuation => { s with message := s.message.startNewContinuation, names := [] }

/-- The message after the operations. -/
def after (movedFrom : TurnContent → TurnContent) (ops : List BlockOp) : NamedMessage :=
  ops.foldl (step movedFrom) {}

/-- The announced blocks, in order. -/
def notifiedNames (s : NamedMessage) : List Nat :=
  Indices.pick s.names ((List.range s.names.length).filter (· ∈ s.message.notifiedThinking))

/-- The block that thinking deltas go to. -/
def currentName (s : NamedMessage) : Option Nat :=
  s.message.currentThinkingIndex.bind (s.names[·]?)

/-! ### What an operation that removes nothing changes -/

/-- Nothing was announced or removed, no block became one of another kind, and the thinking index
is the old one or that of a thinking block. -/
structure Extends (m m' : BaseMessage) : Prop where
  notified : m'.notifiedThinking = m.notifiedThinking
  length : m.currentBlocks.length ≤ m'.currentBlocks.length
  kinds : ∀ (i : Nat) (b : TurnContent), m.currentBlocks[i]? = some b →
    ∃ b' : TurnContent, m'.currentBlocks[i]? = some b' ∧
      b'.isThinking = b.isThinking ∧ b'.isReasoning = b.isReasoning
  current : ∀ i, m'.currentThinkingIndex = some i → m.currentThinkingIndex = some i ∨
    ∃ b, m'.currentBlocks[i]? = some b ∧ b.isThinking = true

namespace Extends

variable {m m₁ m₂ : BaseMessage}

theorem refl (m : BaseMessage) : Extends m m :=
  ⟨rfl, Nat.le_refl _, fun _ b hb => ⟨b, hb, rfl, rfl⟩, fun _ => .inl⟩

theorem trans (h₁ : Extends m m₁) (h₂ : Extends m₁ m₂) : Extends m m₂ where
  notified := h₂.notified.trans h₁.notified
  length := h₁.length.trans h₂.length
  kinds i b hb := by
    obtain ⟨b₁, hb₁, ht₁, hr₁⟩ := h₁.kinds i b hb
    obtain ⟨b₂, hb₂, ht₂, hr₂⟩ := h₂.kinds i b₁ hb₁
    exact ⟨b₂, hb₂, ht₂.trans ht₁, hr₂.trans hr₁⟩
  current i hi := by
    rcases h₂.current i hi with hi | hi
    · rcases h₁.current i hi with hi | ⟨b, hb, ht⟩
      · exact .inl hi
      · obtain ⟨b', hb', ht', -⟩ := h₂.kinds i b hb
        exact .inr ⟨b', hb', ht'.trans ht⟩
    · exact .inr hi

end Extends

theorem extends_addCurrentContent (m : BaseMessage) (content : TurnContent) :
    Extends m (m.addCurrentContent content).2 where
  notified := rfl
  length := by simp [BaseMessage.addCurrentContent]
  kinds i b hb := by
    have hlt := (List.getElem?_eq_some_iff.mp hb).1
    exact ⟨b, (List.getElem?_append_left hlt).trans hb, rfl, rfl⟩
  current _ := .inl

theorem extends_changeBlock (m : BaseMessage) (index : Nat) {f : TurnContent → TurnContent}
    (hf : ∀ b, (f b).isThinking = b.isThinking ∧ (f b).isReasoning = b.isReasoning) :
    Extends m (m.changeBlock index f) where
  notified := rfl
  length := by simp [BaseMessage.changeBlock]
  kinds i b hb := by
    refine ⟨if index = i then f b else b, ?_, ?_⟩
    · show (m.currentBlocks.modify index f)[i]? = _
      rw [List.getElem?_modify, hb]
      split <;> simp [*]
    · split
      · exact hf b
      · exact ⟨rfl, rfl⟩
  current _ := .inl

theorem extends_changeText (m : BaseMessage) (index : Nat) (f : TextContent → TextContent) :
    Extends m (m.changeBlock index (.onText f)) :=
  extends_changeBlock m index fun b => by cases b <;> exact ⟨rfl, rfl⟩

theorem extends_changeThinking (m : BaseMessage) (index : Nat)
    (f : ThinkingContent → ThinkingContent) : Extends m (m.changeBlock index (.onThinking f)) :=
  extends_changeBlock m index fun b => by cases b <;> exact ⟨rfl, rfl⟩

theorem extends_changeRedactedThinking (m : BaseMessage) (index : Nat)
    (f : RedactedThinkingContent → RedactedThinkingContent) :
    Extends m (m.changeBlock index (.onRedactedThinking f)) :=
  extends_changeBlock m index fun b => by cases b <;> exact ⟨rfl, rfl⟩

theorem extends_changeToolUse (m : BaseMessage) (index : Nat)
    (f : ToolUseContent → ToolUseContent) : Extends m (m.changeBlock index (.onToolUse f)) :=
  extends_changeBlock m index fun b => by cases b <;> exact ⟨rfl, rfl⟩

theorem extends_appendTextDelta (m : BaseMessage) (delta : String) :
    Extends m (m.appendTextDelta delta) := by
  have hensure : Extends m m.ensureTextContentIndex.2 := by
    unfold BaseMessage.ensureTextContentIndex
    split
    · exact .refl m
    · exact extends_addCurrentContent m _
  exact hensure.trans (extends_changeText _ _ _)

theorem extends_ensureThinkingContentIndex (m : BaseMessage) :
    Extends m m.ensureThinkingContentIndex.2 := by
  unfold BaseMessage.ensureThinkingContentIndex
  split
  · exact .refl m
  · split
    · rename_i index hindex
      -- the index of the first thinking block
      refine ⟨rfl, Nat.le_refl _, fun _ b hb => ⟨b, hb, rfl, rfl⟩, fun i hi => .inr ?_⟩
      obtain rfl := Option.some.inj hi
      obtain ⟨hlt, ht, -⟩ := List.findIdx?_eq_some_iff_getElem.mp hindex
      exact ⟨_, List.getElem?_eq_getElem hlt, ht⟩
    · have h := extends_addCurrentContent m (.thinking {})
      refine ⟨h.notified, h.length, h.kinds, fun i hi => .inr ?_⟩
      obtain rfl := Option.some.inj hi
      exact ⟨.thinking {}, by simp [BaseMessage.addCurrentContent], rfl⟩

theorem extends_appendThinkingDelta (m : BaseMessage) (delta : String) :
    Extends m (m.appendThinkingDelta delta) :=
  (extends_ensureThinkingContentIndex m).trans (extends_changeThinking _ _ _)

/-! ### What is announced -/

theorem takePending_fst (notified : List Nat) (i : Nat) (blocks : List TurnContent) :
    (BaseMessage.takePending notified i blocks).1 =
      (List.range' i blocks.length).filterMap fun j =>
        if j ∈ notified then none else blocks[j - i]?.bind BaseMessage.pendingOf := by
  induction blocks generalizing notified i with
  | nil => rfl
  | cons b blocks ih =>
      have htail : ∀ notified' : List Nat, (∀ j, i + 1 ≤ j → (j ∈ notified' ↔ j ∈ notified)) →
          (BaseMessage.takePending notified' (i + 1) blocks).1 =
            (List.range' (i + 1) blocks.length).filterMap fun j =>
              if j ∈ notified then none
              else (b :: blocks)[j - i]?.bind BaseMessage.pendingOf := by
        intro notified' hsame
        rw [ih]
        refine List.filterMap_congr fun j hj => ?_
        have hle : i + 1 ≤ j := (List.mem_range'_1.mp hj).1
        obtain ⟨k, rfl⟩ := Nat.exists_eq_add_of_le hle
        simp only [hsame _ hle, Nat.add_sub_cancel_left, show i + 1 + k - i = k + 1 by omega,
          List.getElem?_cons_succ]
      rw [BaseMessage.takePending, List.length_cons, List.range'_succ, List.filterMap_cons]
      simp only [Nat.sub_self, List.getElem?_cons_zero, Option.bind_some]
      split
      · rename_i hnone
        rw [hnone]
        exact htail notified fun _ _ => Iff.rfl
      · rename_i pending hsome
        rw [hsome]
        refine congrArg (pending :: ·) (htail (i :: notified) fun j hj => ?_)
        rw [List.mem_cons, or_iff_right (by omega)]

theorem mem_takePending_snd (notified : List Nat) (i : Nat) (blocks : List TurnContent) (k : Nat) :
    k ∈ (BaseMessage.takePending notified i blocks).2 ↔
      k ∈ notified ∨ i ≤ k ∧ (blocks[k - i]?.bind BaseMessage.pendingOf).isSome := by
  induction blocks generalizing notified i with
  | nil => simp [BaseMessage.takePending]
  | cons b blocks ih =>
      have hlater : ∀ k, i < k → (b :: blocks)[k - i]? = blocks[k - (i + 1)]? := fun k hk => by
        rw [show k - i = k - (i + 1) + 1 by omega, List.getElem?_cons_succ]
      rw [BaseMessage.takePending]
      by_cases hk : k = i
      · subst hk
        by_cases hmem : k ∈ notified
        · simp [hmem, ih]
        · cases hb : BaseMessage.pendingOf b <;> simp [hmem, hb, ih]
      · have hiff : i ≤ k ↔ i + 1 ≤ k := by omega
        split
        · rw [ih, hiff]
          refine or_congr_right (and_congr_right fun hle => ?_)
          rw [hlater k hle]
        · rw [ih, hiff, List.mem_cons, or_iff_right hk]
          refine or_congr_right (and_congr_right fun hle => ?_)
          rw [hlater k hle]

theorem notice_of_pendingOf {b : TurnContent} {pending : PendingThinkingNotification}
    (h : BaseMessage.pendingOf b = some pending) : b.notice = some pending := by
  cases b with
  | thinking c =>
      rw [BaseMessage.pendingOf] at h
      split at h
      · cases h
      · exact h
  | redactedThinking c => exact h
  | _ => cases h

section Take

variable (m : BaseMessage)

/-- What a call announces of the block at an index. -/
def announces (i : Nat) : Option PendingThinkingNotification :=
  if i ∈ m.notifiedThinking then none else m.currentBlocks[i]?.bind BaseMessage.pendingOf

theorem takePending_announces : m.takePendingThinkingNotifications.1 =
    (List.range m.currentBlocks.length).filterMap (announces m) := by
  rw [List.range_eq_range']
  exact takePending_fst _ 0 _

theorem mem_notified_take (i : Nat) :
    i ∈ m.takePendingThinkingNotifications.2.notifiedThinking ↔
      i ∈ m.notifiedThinking ∨ (announces m i).isSome := by
  refine (mem_takePending_snd _ 0 _ i).trans ?_
  by_cases h : i ∈ m.notifiedThinking <;> simp [announces, h]

theorem marked_take : marked m m.takePendingThinkingNotifications.2 =
    (List.range m.currentBlocks.length).filter fun i => (announces m i).isSome := by
  refine List.filter_congr fun i _ => ?_
  simp only [mem_notified_take]
  by_cases h : i ∈ m.notifiedThinking <;> simp [announces, h]

/-- The blocks a call marks are those it announces, as they are then. -/
theorem map_notice_marked :
    (marked m m.takePendingThinkingNotifications.2).map
        (fun i => m.currentBlocks[i]?.bind TurnContent.notice) =
      m.takePendingThinkingNotifications.1.map some := by
  have hnotice : ∀ i ∈ marked m m.takePendingThinkingNotifications.2,
      m.currentBlocks[i]?.bind TurnContent.notice = announces m i := by
    intro i hi
    rw [marked_take] at hi
    obtain ⟨pending, hp⟩ := Option.isSome_iff_exists.mp (List.mem_filter.mp hi).2
    rw [hp]
    rw [announces] at hp
    split at hp
    · cases hp
    · obtain ⟨b, hb, hpending⟩ := Option.bind_eq_some_iff.mp hp
      rw [hb]
      exact notice_of_pendingOf hpending
  rw [List.map_congr_left hnotice, marked_take, takePending_announces,
    List.map_filterMap_some_eq_filter_map_isSome, List.filter_map]
  rfl

theorem length_marked : (marked m m.takePendingThinkingNotifications.2).length =
    m.takePendingThinkingNotifications.1.length := by
  simpa using congrArg List.length (map_notice_marked m)

end Take

/-! ### The bookkeeping -/

/-- The indices and the names say the same. -/
structure Inv (s : NamedMessage) : Prop where
  length : s.names.length = s.message.currentBlocks.length
  nodup : s.names.Nodup
  named : ∀ n ∈ s.names, n < s.nextName
  loggedNamed : ∀ n ∈ s.announced.map Prod.fst, n < s.nextName
  loggedNodup : (s.announced.map Prod.fst).Nodup
  logged : ∀ i n, s.names[i]? = some n →
    (i ∈ s.message.notifiedThinking ↔ n ∈ s.announced.map Prod.fst)
  notified : ∀ i ∈ s.message.notifiedThinking,
    ∃ b : TurnContent, s.message.currentBlocks[i]? = some b ∧ b.isReasoning = true
  current : ∀ i, s.message.currentThinkingIndex = some i →
    ∃ b : TurnContent, s.message.currentBlocks[i]? = some b ∧ b.isThinking = true

theorem Inv.start : Inv {} :=
  ⟨rfl, List.nodup_nil, nofun, nofun, List.nodup_nil, nofun, nofun, nofun⟩

variable {s : NamedMessage}

theorem Inv.grow (h : s.Inv) {m : BaseMessage} (hm : Extends s.message m) : (s.grow m).Inv where
  length := by
    have hle := hm.length
    have hlen := h.length
    simp only [NamedMessage.grow, List.length_append, List.length_range']
    omega
  nodup := by
    refine h.nodup.append (List.nodup_range' ..) fun n hn hnew => ?_
    exact absurd (h.named n hn) (Nat.not_lt.mpr (List.mem_range'_1.mp hnew).1)
  named n hn := by
    show n < s.nextName + _
    rcases List.mem_append.mp hn with hn | hn
    · have := h.named n hn
      omega
    · exact (List.mem_range'_1.mp hn).2
  loggedNamed n hn := Nat.lt_of_lt_of_le (h.loggedNamed n hn) (Nat.le_add_right _ _)
  loggedNodup := h.loggedNodup
  logged i n hi := by
    rw [show (s.grow m).message.notifiedThinking = s.message.notifiedThinking from hm.notified]
    by_cases hlt : i < s.names.length
    · exact h.logged i n ((List.getElem?_append_left hlt).symm.trans hi)
    · -- a new block: its index is that of no announced one, nor is its name announced
      have hnew : n ∈ List.range' s.nextName (m.currentBlocks.length - s.names.length) := by
        rw [NamedMessage.grow, List.getElem?_append_right (Nat.not_lt.mp hlt)] at hi
        exact List.mem_of_getElem? hi
      refine iff_of_false (fun hmem => ?_) fun hmem => ?_
      · obtain ⟨b, hb, -⟩ := h.notified i hmem
        exact hlt (h.length ▸ (List.getElem?_eq_some_iff.mp hb).1)
      · exact absurd (h.loggedNamed n hmem) (Nat.not_lt.mpr (List.mem_range'_1.mp hnew).1)
  notified i hi := by
    obtain ⟨b, hb, hr⟩ := h.notified i (hm.notified ▸ hi)
    obtain ⟨b', hb', -, hr'⟩ := hm.kinds i b hb
    exact ⟨b', hb', hr'.trans hr⟩
  current i hi := by
    rcases hm.current i hi with hi | hi
    · obtain ⟨b, hb, ht⟩ := h.current i hi
      obtain ⟨b', hb', ht', -⟩ := hm.kinds i b hb
      exact ⟨b', hb', ht'.trans ht⟩
    · exact hi

variable (movedFrom : TurnContent → TurnContent)

theorem Inv.take (h : s.Inv) : (s.step movedFrom .takePendingThinkingNotifications).Inv := by
  have hrange : ∀ i ∈ marked s.message s.message.takePendingThinkingNotifications.2,
      i < s.names.length := fun i hi =>
    h.length ▸ List.mem_range.mp (List.mem_of_mem_filter hi)
  have hnodup : (marked s.message s.message.takePendingThinkingNotifications.2).Nodup :=
    List.nodup_range.filter _
  have hlog : (s.step movedFrom .takePendingThinkingNotifications).announced.map Prod.fst =
      s.announced.map Prod.fst ++
        Indices.pick s.names (marked s.message s.message.takePendingThinkingNotifications.2) := by
    show (s.announced ++ List.zip _ _).map Prod.fst = _
    rw [List.map_append, List.map_fst_zip]
    rw [Indices.length_pick hrange, length_marked]
  have hnew : ∀ n ∈ Indices.pick s.names
      (marked s.message s.message.takePendingThinkingNotifications.2),
      n ∈ s.names ∧ n ∉ s.announced.map Prod.fst := by
    intro n hn
    obtain ⟨i, hi, hname⟩ := List.mem_filterMap.mp hn
    have hnot : i ∉ s.message.notifiedThinking := by
      simpa using (of_decide_eq_true (List.mem_filter.mp hi).2).2
    exact ⟨List.mem_of_getElem? hname, fun hmem => hnot ((h.logged i n hname).mpr hmem)⟩
  refine ⟨h.length, h.nodup, h.named, fun n hn => ?_, ?_, fun i n hi => ?_, fun i hi => ?_,
    h.current⟩
  · rw [hlog] at hn
    rcases List.mem_append.mp hn with hn | hn
    · exact h.loggedNamed n hn
    · exact h.named n (hnew n hn).1
  · rw [hlog]
    exact h.loggedNodup.append (Indices.nodup_pick h.nodup hnodup) fun n hn hn' =>
      (hnew n hn').2 hn
  · rw [hlog, List.mem_append, ← h.logged i n hi, Indices.mem_pick_iff h.nodup hi, marked_take]
    refine (mem_notified_take s.message i).trans (or_congr_right ?_)
    have hlt : i < s.message.currentBlocks.length :=
      h.length ▸ (List.getElem?_eq_some_iff.mp hi).1
    simp [List.mem_filter, hlt]
  · rcases (mem_notified_take s.message i).mp hi with hi | hi
    · exact h.notified i hi
    · obtain ⟨pending, hp⟩ := Option.isSome_iff_exists.mp hi
      rw [announces] at hp
      split at hp
      · cases hp
      · obtain ⟨b, hb, hpending⟩ := Option.bind_eq_some_iff.mp hp
        refine ⟨b, hb, ?_⟩
        have hnotice := notice_of_pendingOf hpending
        cases b <;> first | rfl | cases hnotice

section Remove

variable (predicate : TurnContent → Bool)

/-- The indices of the blocks a removal keeps. -/
abbrev kept (s : NamedMessage) : List Nat :=
  s.message.staying predicate s.message.currentBlocks.length

theorem kept_lt {i : Nat} (hi : i ∈ s.kept predicate) : i < s.message.currentBlocks.length :=
  BaseMessage.lt_of_mem_staying hi

theorem pick_zip_kept (h : s.Inv) :
    Indices.pick (s.names.zip s.message.currentBlocks) (s.kept predicate) =
      (s.names.zip s.message.currentBlocks).filter fun x => !predicate x.2 := by
  have hlen : (s.names.zip s.message.currentBlocks).length = s.message.currentBlocks.length := by
    rw [List.length_zip, h.length, Nat.min_self]
  have hkept : (List.range (s.names.zip s.message.currentBlocks).length).filter (fun k =>
      (s.names.zip s.message.currentBlocks)[k]?.any fun x => !predicate x.2) =
        s.kept predicate := by
    rw [hlen]
    refine List.filter_congr fun k hk => ?_
    have hk' : k < s.message.currentBlocks.length := List.mem_range.mp hk
    have hk'' : k < s.names.length := h.length ▸ hk'
    simp [hk', hk'']
  rw [← hkept, Indices.pick_filter]

theorem names_remove (h : s.Inv) :
    (s.step movedFrom (.removeBlocksIf predicate)).names =
      Indices.pick s.names (s.kept predicate) := by
  show ((s.names.zip s.message.currentBlocks).filter fun x => !predicate x.2).map Prod.fst = _
  rw [← pick_zip_kept predicate h, Indices.map_pick, List.map_fst_zip h.length.le]

theorem message_remove (s : NamedMessage) :
    (s.step movedFrom (.removeBlocksIf predicate)).message.currentBlocks =
        Indices.pick s.message.currentBlocks (s.kept predicate) ∧
      (s.step movedFrom (.removeBlocksIf predicate)).message.notifiedThinking =
        (List.range (s.kept predicate).length).filter (fun k =>
          (s.kept predicate)[k]?.any (· ∈ s.message.notifiedThinking)) ∧
      (s.step movedFrom (.removeBlocksIf predicate)).message.currentThinkingIndex =
        s.message.currentThinkingIndex.bind ((s.kept predicate).idxOf? ·) := by
  have h := BaseMessage.Removal.after movedFrom s.message predicate
    (Nat.le_refl s.message.currentBlocks.length)
  exact ⟨h.front, h.kept ▸ h.remapped, h.thinkingIndex⟩

/-- A new index is that of a block that stayed. -/
theorem mem_notified_remove {k : Nat} :
    k ∈ (s.step movedFrom (.removeBlocksIf predicate)).message.notifiedThinking ↔
      ∃ i, (s.kept predicate)[k]? = some i ∧ i ∈ s.message.notifiedThinking := by
  rw [(message_remove movedFrom predicate s).2.1, List.mem_filter, List.mem_range]
  cases hk : (s.kept predicate)[k]? with
  | none => simp
  | some i => simp [(List.getElem?_eq_some_iff.mp hk).1]

theorem current_remove {k : Nat}
    (hk : (s.step movedFrom (.removeBlocksIf predicate)).message.currentThinkingIndex = some k) :
    ∃ i, (s.kept predicate)[k]? = some i ∧ s.message.currentThinkingIndex = some i := by
  rw [(message_remove movedFrom predicate s).2.2] at hk
  obtain ⟨i, hi, hidx⟩ := Option.bind_eq_some_iff.mp hk
  exact ⟨i, Indices.getElem?_of_idxOf? hidx, hi⟩

theorem Inv.remove (h : s.Inv) : (s.step movedFrom (.removeBlocksIf predicate)).Inv := by
  have hrange : ∀ i ∈ s.kept predicate, i < s.names.length := fun i hi =>
    h.length ▸ kept_lt predicate hi
  have hnames := names_remove movedFrom predicate h
  have hblocks := (message_remove movedFrom predicate s).1
  refine ⟨?_, ?_, fun n hn => ?_, h.loggedNamed, h.loggedNodup, fun k n hk => ?_,
    fun k hk => ?_, fun k hk => ?_⟩
  · rw [hnames, hblocks, Indices.length_pick hrange,
      Indices.length_pick fun i hi => kept_lt predicate hi]
  · rw [hnames]
    exact Indices.nodup_pick h.nodup (List.nodup_range.filter _)
  · rw [hnames] at hn
    obtain ⟨i, -, hi⟩ := List.mem_filterMap.mp hn
    exact h.named n (List.mem_of_getElem? hi)
  · rw [hnames, Indices.getElem?_pick hrange] at hk
    obtain ⟨i, hi, hn⟩ := Option.bind_eq_some_iff.mp hk
    rw [mem_notified_remove]
    refine Iff.trans ⟨?_, fun hmem => ⟨i, hi, hmem⟩⟩ (h.logged i n hn)
    rintro ⟨j, hj, hmem⟩
    rwa [Option.some.inj (hi.symm.trans hj)]
  · obtain ⟨i, hi, hmem⟩ := (mem_notified_remove movedFrom predicate).mp hk
    obtain ⟨b, hb, hr⟩ := h.notified i hmem
    refine ⟨b, ?_, hr⟩
    rw [hblocks, Indices.getElem?_pick fun i hi => kept_lt predicate hi, hi]
    exact hb
  · obtain ⟨i, hi, hcurrent⟩ := current_remove movedFrom predicate hk
    obtain ⟨b, hb, ht⟩ := h.current i hcurrent
    refine ⟨b, ?_, ht⟩
    rw [hblocks, Indices.getElem?_pick fun i hi => kept_lt predicate hi, hi]
    exact hb

/-- The blocks that stay are the same blocks, in the same order. -/
theorem blocks_remove (h : s.Inv) :
    (s.step movedFrom (.removeBlocksIf predicate)).names.zip
        (s.step movedFrom (.removeBlocksIf predicate)).message.currentBlocks =
      (s.names.zip s.message.currentBlocks).filter fun x => !predicate x.2 := by
  have hlen : s.message.currentBlocks.length ≤ s.names.length := h.length.ge
  rw [names_remove movedFrom predicate h, (message_remove movedFrom predicate s).1,
    ← pick_zip_kept predicate h]
  have hfst : Indices.pick s.names (s.kept predicate) =
      (Indices.pick (s.names.zip s.message.currentBlocks) (s.kept predicate)).map Prod.fst := by
    rw [Indices.map_pick, List.map_fst_zip h.length.le]
  have hsnd : Indices.pick s.message.currentBlocks (s.kept predicate) =
      (Indices.pick (s.names.zip s.message.currentBlocks) (s.kept predicate)).map Prod.snd := by
    rw [Indices.map_pick, List.map_snd_zip h.length.ge]
  rw [hfst, hsnd]
  exact (List.zip_of_prod rfl rfl).symm

/-- What was announced stays announced, and nothing else is. -/
theorem notifiedNames_remove (h : s.Inv) :
    (s.step movedFrom (.removeBlocksIf predicate)).notifiedNames =
      s.notifiedNames.filter (· ∈ (s.step movedFrom (.removeBlocksIf predicate)).names) := by
  have hrange : ∀ i ∈ s.kept predicate, i < s.names.length := fun i hi =>
    h.length ▸ kept_lt predicate hi
  have hnotified : (List.range (s.kept predicate).length).filter
      (· ∈ (s.step movedFrom (.removeBlocksIf predicate)).message.notifiedThinking) =
        (List.range (s.kept predicate).length).filter fun k =>
          (s.kept predicate)[k]?.any (· ∈ s.message.notifiedThinking) := by
    refine List.filter_congr fun k hk => ?_
    simp only [(message_remove movedFrom predicate s).2.1, List.mem_filter, hk, true_and,
      Bool.decide_eq_true]
  have hboth : ((List.range s.names.length).filter (· ∈ s.message.notifiedThinking)).filter
      (· ∈ s.kept predicate) = (s.kept predicate).filter (· ∈ s.message.notifiedThinking) := by
    rw [h.length, kept, BaseMessage.staying, List.filter_filter, List.filter_filter]
    refine List.filter_congr fun i hi => ?_
    simp only [List.mem_filter, hi, true_and, Bool.decide_eq_true]
    exact Bool.and_comm _ _
  rw [notifiedNames, notifiedNames, names_remove movedFrom predicate h,
    Indices.filter_pick h.nodup, hboth, Indices.length_pick hrange, hnotified,
    Indices.pick_pick hrange, Indices.pick_filter]

/-- The block that deltas go to is the same one if it stays, and none if it does not. -/
theorem currentName_remove (h : s.Inv) :
    (s.step movedFrom (.removeBlocksIf predicate)).currentName =
      s.currentName.filter (· ∈ (s.step movedFrom (.removeBlocksIf predicate)).names) := by
  have hrange : ∀ i ∈ s.kept predicate, i < s.names.length := fun i hi =>
    h.length ▸ kept_lt predicate hi
  rw [currentName, currentName, names_remove movedFrom predicate h,
    (message_remove movedFrom predicate s).2.2]
  cases hc : s.message.currentThinkingIndex with
  | none => rfl
  | some i =>
      obtain ⟨b, hb, -⟩ := h.current i hc
      have hi : i < s.names.length := h.length ▸ (List.getElem?_eq_some_iff.mp hb).1
      have hname : s.names[i]? = some s.names[i] := List.getElem?_eq_getElem hi
      cases hidx : (s.kept predicate).idxOf? i with
      | none =>
          have hgone : i ∉ s.kept predicate := List.idxOf?_eq_none_iff.mp hidx
          have hfilter : (some s.names[i]).filter (· ∈ Indices.pick s.names (s.kept predicate)) =
              none := by
            rw [Option.filter_some, if_neg]
            simpa [Indices.mem_pick_iff h.nodup hname] using hgone
          simp [hidx, hname, hfilter]
      | some k =>
          have hk := Indices.getElem?_of_idxOf? hidx
          have hfilter : (some s.names[i]).filter (· ∈ Indices.pick s.names (s.kept predicate)) =
              some s.names[i] := by
            rw [Option.filter_some, if_pos]
            simpa [Indices.mem_pick_iff h.nodup hname] using List.mem_of_getElem? hk
          simp [hidx, hname, hfilter, Indices.getElem?_pick hrange, hk]

end Remove

theorem Inv.step (h : s.Inv) (op : BlockOp) : (s.step movedFrom op).Inv := by
  cases op with
  | addCurrentContent content => exact h.grow (extends_addCurrentContent _ _)
  | appendTextDelta delta => exact h.grow (extends_appendTextDelta _ _)
  | appendThinkingDelta delta => exact h.grow (extends_appendThinkingDelta _ _)
  | changeText index f => exact h.grow (extends_changeText _ _ _)
  | changeThinking index f => exact h.grow (extends_changeThinking _ _ _)
  | changeRedactedThinking index f => exact h.grow (extends_changeRedactedThinking _ _ _)
  | changeToolUse index f => exact h.grow (extends_changeToolUse _ _ _)
  | takePendingThinkingNotifications => exact h.take movedFrom
  | removeBlocksIf predicate => exact h.remove movedFrom predicate
  | clearBlocks =>
      exact ⟨rfl, List.nodup_nil, nofun, h.loggedNamed, h.loggedNodup, nofun, nofun, nofun⟩
  | startNewContinuation =>
      exact ⟨rfl, List.nodup_nil, nofun, h.loggedNamed, h.loggedNodup, nofun, nofun, nofun⟩

theorem inv_after (ops : List BlockOp) : (after movedFrom ops).Inv := by
  induction ops using List.reverseRecOn with
  | nil => exact .start
  | append_singleton ops op ih =>
      rw [after, List.foldl_append]
      exact ih.step movedFrom op

/-- **The bookkeeping of the thinking blocks.** Whatever operations a message went through, no
block was announced twice; a call announces the blocks it marks with the text and the signature
they have then; what is marked is a thinking block or a redacted one, and the thinking index is
that of a thinking block; and a removal keeps the blocks it does not remove in their order, and
with each what was announced of it and whether deltas go to it. -/
theorem bookkeeping (ops : List BlockOp) :
    let s := after movedFrom ops
    (s.announced.map Prod.fst).Nodup ∧
      (marked s.message s.message.takePendingThinkingNotifications.2).map
          (fun i => s.message.currentBlocks[i]?.bind TurnContent.notice) =
        s.message.takePendingThinkingNotifications.1.map some ∧
      (∀ i ∈ s.message.notifiedThinking,
        ∃ b : TurnContent, s.message.currentBlocks[i]? = some b ∧ b.isReasoning = true) ∧
      (∀ i, s.message.currentThinkingIndex = some i →
        ∃ c, s.message.currentBlocks[i]? = some (.thinking c)) ∧
      (∀ predicate,
        let s' := s.step movedFrom (.removeBlocksIf predicate)
        s'.names.zip s'.message.currentBlocks =
            (s.names.zip s.message.currentBlocks).filter (fun x => !predicate x.2) ∧
          s'.notifiedNames = s.notifiedNames.filter (· ∈ s'.names) ∧
          s'.currentName = s.currentName.filter (· ∈ s'.names)) := by
  have h := inv_after movedFrom ops
  refine ⟨h.loggedNodup, map_notice_marked _, h.notified, fun i hi => ?_, fun predicate =>
    ⟨blocks_remove movedFrom predicate h, notifiedNames_remove movedFrom predicate h,
      currentName_remove movedFrom predicate h⟩⟩
  obtain ⟨b, hb, ht⟩ := h.current i hi
  cases b with
  | thinking c => exact ⟨c, hb⟩
  | _ => cases ht

end NamedMessage

end LLMQore
