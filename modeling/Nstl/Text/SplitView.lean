import Mathlib.Data.List.Basic

/-!
# Splitting a view at a delimiter

`split_view_func` walks a view with two positions: `prev`, where the current
token starts, and `pos`, the next delimiter from there.  The token behind the
last delimiter is cut out after the loop.  The loop invariant is about the part
not yet consumed, `view.drop prev`: what the callback still receives are the
tokens of that part, whichever way the positions got there.
-/

namespace Nstl.SplitView

variable {CharT : Type*}

section Tokens

/-- The token between two positions. -/
def itemBetween (view : List CharT) (prev pos : ℕ) : List CharT :=
  if pos = prev then [] else (view.drop prev).take (pos - prev)

/-- The token behind the last delimiter. -/
def lastItem (view : List CharT) (prev : ℕ) : List CharT :=
  if prev < view.length then view.drop prev else []

@[simp]
theorem itemBetween_eq (view : List CharT) (prev pos : ℕ) :
    itemBetween view prev pos = (view.drop prev).take (pos - prev) := by
  unfold itemBetween
  split
  next heq => rw [heq, Nat.sub_self, List.take_zero]
  next => rfl

@[simp]
theorem lastItem_eq (view : List CharT) (prev : ℕ) : lastItem view prev = view.drop prev := by
  unfold lastItem
  split
  · rfl
  · rw [List.drop_eq_nil_of_le (by omega)]

/-- What the flag lets through to the callback. -/
def kept (skipEmpty : Bool) (tokens : List (List CharT)) : List (List CharT) :=
  tokens.filter fun token => !(skipEmpty && token.isEmpty)

theorem kept_false (tokens : List (List CharT)) : kept false tokens = tokens := by
  simp [kept]

theorem kept_true (tokens : List (List CharT)) :
    kept true tokens = tokens.filter fun token => !token.isEmpty := by
  simp [kept]

theorem kept_append (skipEmpty : Bool) (first second : List (List CharT)) :
    kept skipEmpty (first ++ second) = kept skipEmpty first ++ kept skipEmpty second :=
  List.filter_append ..

theorem kept_cons_of_skip {skipEmpty : Bool} {token : List CharT}
    (hskip : (skipEmpty && token.isEmpty) = true) (tokens : List (List CharT)) :
    kept skipEmpty (token :: tokens) = kept skipEmpty tokens :=
  List.filter_cons_of_neg (by rw [hskip]; decide)

theorem kept_cons_of_pass {skipEmpty : Bool} {token : List CharT}
    (hpass : ¬(skipEmpty && token.isEmpty) = true) (tokens : List (List CharT)) :
    kept skipEmpty (token :: tokens) = token :: kept skipEmpty tokens :=
  List.filter_cons_of_pos (by rw [eq_false_of_ne_true hpass]; rfl)

end Tokens

variable [DecidableEq CharT]

/-- `basic_string_view::find(ch, pos)`; `npos` is `none`. -/
def find (view : List CharT) (ch : CharT) (start : ℕ) : Option ℕ :=
  ((view.drop start).idxOf? ch).map (start + ·)

/-- Without a further delimiter the rest is a single token. -/
theorem notMem_of_find_eq_none {view : List CharT} {ch : CharT} {start : ℕ}
    (hfind : find view ch start = none) : ch ∉ view.drop start := by
  simpa [find] using hfind

theorem lt_of_find {view : List CharT} {ch : CharT} {start pos : ℕ}
    (hfind : find view ch start = some pos) : start ≤ pos ∧ pos < view.length := by
  rw [find, Option.map_eq_some_iff] at hfind
  obtain ⟨offset, hoffset, rfl⟩ := hfind
  obtain ⟨hlt, -, -⟩ := List.idxOf?_eq_some_iff.1 hoffset
  rw [List.length_drop] at hlt
  omega

/-- The characters in front of the next delimiter are none themselves. -/
theorem notMem_take_of_find {view : List CharT} {ch : CharT} {start pos : ℕ}
    (hfind : find view ch start = some pos) :
    ch ∉ (view.drop start).take (pos - start) := by
  rw [find, Option.map_eq_some_iff] at hfind
  obtain ⟨offset, hoffset, rfl⟩ := hfind
  obtain ⟨hlt, -, hbefore⟩ := List.idxOf?_eq_some_iff.1 hoffset
  intro hmem
  obtain ⟨index, hindex, hget⟩ := List.mem_take_iff_getElem.1 hmem
  exact hbefore index (by omega) hget

/-- The next delimiter cuts the rest into the token in front of it and what follows. -/
theorem drop_of_find {view : List CharT} {ch : CharT} {start pos : ℕ}
    (hfind : find view ch start = some pos) :
    view.drop start = (view.drop start).take (pos - start) ++ ch :: view.drop (pos + 1) := by
  rw [find, Option.map_eq_some_iff] at hfind
  obtain ⟨offset, hoffset, rfl⟩ := hfind
  obtain ⟨hlt, hget, -⟩ := List.idxOf?_eq_some_iff.1 hoffset
  calc view.drop start
      = (view.drop start).take offset ++ (view.drop start).drop offset :=
        (List.take_append_drop offset _).symm
    _ = (view.drop start).take offset ++ ch :: (view.drop start).drop (offset + 1) := by
        rw [List.drop_eq_getElem_cons hlt, hget]
    _ = (view.drop start).take (start + offset - start) ++
          ch :: view.drop (start + offset + 1) := by
        rw [List.drop_drop, Nat.add_sub_cancel_left, Nat.add_assoc]

section SplitViewFunc

variable {State : Type*}

/-- The loop of `split_view_func`, with the state the callback works on, the start
`prev` of the current token and the number of calls so far. -/
def splitLoop (view : List CharT) (delim : CharT) (func : State → List CharT → State)
    (skipEmpty : Bool) (prev retval : ℕ) (state : State) : State × ℕ × ℕ :=
  match hfind : find view delim prev with
  | none => (state, prev, retval)
  | some pos =>
      let item := itemBetween view prev pos
      if skipEmpty && item.isEmpty then
        splitLoop view delim func skipEmpty (pos + 1) retval state
      else
        splitLoop view delim func skipEmpty (pos + 1) (retval + 1) (func state item)
termination_by view.length - prev
decreasing_by
  all_goals
    have hbounds := lt_of_find hfind
    omega

/-- `split_view_func`: the callback's state after all calls, and the value returned. -/
def splitViewFunc (view : List CharT) (delim : CharT) (func : State → List CharT → State)
    (skipEmpty : Bool) (state : State) : State × ℕ :=
  let (state, prev, retval) := splitLoop view delim func skipEmpty 0 0 state
  let item := lastItem view prev
  if skipEmpty && item.isEmpty then
    (state, retval)
  else
    (func state item, retval + 1)

/-- One round of the loop takes the first token off the rest. -/
theorem splitOn_drop_of_find {view : List CharT} {delim : CharT} {prev pos : ℕ}
    (hfind : find view delim prev = some pos) :
    (view.drop prev).splitOn delim =
      itemBetween view prev pos :: (view.drop (pos + 1)).splitOn delim := by
  rw [itemBetween_eq]
  conv_lhs => rw [drop_of_find hfind]
  exact List.splitOn_append_cons_self_of_not_mem (notMem_take_of_find hfind) _

/-- The loop hands out the tokens of the rest but the last, which the returned
position starts. -/
theorem splitLoop_spec (view : List CharT) (delim : CharT)
    (func : State → List CharT → State) (skipEmpty : Bool) (prev retval : ℕ)
    (state : State) :
    ∃ handed stop,
      (view.drop prev).splitOn delim = handed ++ [view.drop stop] ∧
      splitLoop view delim func skipEmpty prev retval state =
        ((kept skipEmpty handed).foldl func state, stop,
          retval + (kept skipEmpty handed).length) := by
  fun_induction splitLoop view delim func skipEmpty prev retval state with
  | case1 prev retval state hfind =>
      refine ⟨[], prev, ?_, by simp [kept]⟩
      rw [List.splitOn_eq_singleton (notMem_of_find_eq_none hfind), List.nil_append]
  | case2 prev retval state pos hfind item hskip ih =>
      obtain ⟨handed, stop, htokens, hloop⟩ := ih
      refine ⟨item :: handed, stop, ?_, ?_⟩
      · rw [splitOn_drop_of_find hfind, htokens, List.cons_append]
      · rw [hloop, kept_cons_of_skip hskip]
  | case3 prev retval state pos hfind item hpass ih =>
      obtain ⟨handed, stop, htokens, hloop⟩ := ih
      refine ⟨item :: handed, stop, ?_, ?_⟩
      · rw [splitOn_drop_of_find hfind, htokens, List.cons_append]
      · rw [hloop, kept_cons_of_pass hpass, List.foldl_cons, List.length_cons]
        congr 2
        omega

/-- The callback is given the tokens of the view, in order, and counted. -/
theorem splitViewFunc_eq (view : List CharT) (delim : CharT)
    (func : State → List CharT → State) (skipEmpty : Bool) (state : State) :
    splitViewFunc view delim func skipEmpty state =
      ((kept skipEmpty (view.splitOn delim)).foldl func state,
        (kept skipEmpty (view.splitOn delim)).length) := by
  obtain ⟨handed, stop, htokens, hloop⟩ :=
    splitLoop_spec view delim func skipEmpty 0 0 state
  rw [List.drop_zero] at htokens
  rw [splitViewFunc, hloop, htokens, kept_append, List.foldl_append, List.length_append]
  simp only [lastItem_eq, Nat.zero_add]
  split
  next hskip =>
    rw [kept_cons_of_skip hskip]
    rfl
  next hpass =>
    rw [kept_cons_of_pass hpass]
    rfl

end SplitViewFunc

/-- The calls a callback sees that only keeps what it is given. -/
def splitCalls (view : List CharT) (delim : CharT) (skipEmpty : Bool) : List (List CharT) :=
  (splitViewFunc view delim (fun calls item => calls ++ [item]) skipEmpty []).1

theorem splitCalls_eq (view : List CharT) (delim : CharT) (skipEmpty : Bool) :
    splitCalls view delim skipEmpty = kept skipEmpty (view.splitOn delim) := by
  rw [splitCalls, splitViewFunc_eq, List.foldl_append_eq_append, List.nil_append,
    ← List.flatMap_def, List.flatMap_singleton']

-- Leading, consecutive and trailing delimiters.
example : splitCalls [0, 1, 0, 0, 2, 0] 0 false = [[], [1], [], [2], []] := by
  rw [splitCalls_eq]
  decide

/-! ## The tokens of a view -/

theorem notMem_of_mem_splitOn {view : List CharT} {delim : CharT} {token : List CharT}
    (htoken : token ∈ view.splitOn delim) : delim ∉ token := by
  induction view generalizing token with
  | nil =>
      rw [List.splitOn_nil, List.mem_singleton] at htoken
      simp [htoken]
  | cons ch view ih =>
      rw [List.splitOn_cons_eq_if_modifyHead] at htoken
      cases htail : view.splitOn delim with
      | nil => exact absurd htail (List.splitOn_ne_nil delim view)
      | cons first others =>
          rw [htail] at htoken ih
          -- A character other than the delimiter only prolongs the first token.
          split at htoken
          next =>
            rcases List.mem_cons.1 htoken with rfl | hmem
            · exact List.not_mem_nil
            · exact ih hmem
          next hne =>
            rcases List.mem_cons.1 htoken with rfl | hmem
            · rw [List.mem_cons, not_or]
              exact ⟨fun heq => hne (beq_iff_eq.2 heq.symm), ih List.mem_cons_self⟩
            · exact ih (List.mem_cons_of_mem _ hmem)

theorem length_splitOn (view : List CharT) (delim : CharT) :
    (view.splitOn delim).length = view.count delim + 1 := by
  induction view with
  | nil => rfl
  | cons ch view ih =>
      rw [List.splitOn_cons_eq_if_modifyHead, List.count_cons]
      split <;> simp [ih]

/-- Splitting is invertible: without skipping, the tokens handed to the callback hold no
delimiter, joined by it they are the view, and there is one more of them than there are
delimiters; with skipping, the callback receives the non-empty ones among them.  Whatever
the callback does with its state, it does it once for each of these tokens, in order, and
their number is returned. -/
theorem splitViewFunc_invertible (view : List CharT) (delim : CharT) :
    (∀ token ∈ splitCalls view delim false, delim ∉ token) ∧
    [delim].intercalate (splitCalls view delim false) = view ∧
    (splitCalls view delim false).length = view.count delim + 1 ∧
    splitCalls view delim true =
      (splitCalls view delim false).filter (fun token => !token.isEmpty) ∧
    ∀ {State : Type*} (func : State → List CharT → State) (skipEmpty : Bool) (state : State),
      splitViewFunc view delim func skipEmpty state =
        ((splitCalls view delim skipEmpty).foldl func state,
          (splitCalls view delim skipEmpty).length) := by
  simp only [splitCalls_eq, kept_false, kept_true]
  refine ⟨fun token htoken => notMem_of_mem_splitOn htoken, List.intercalate_splitOn delim,
    length_splitOn view delim, trivial, ?_⟩
  intro State func skipEmpty state
  exact splitViewFunc_eq view delim func skipEmpty state

end Nstl.SplitView
