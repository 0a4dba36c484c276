/-
The spans that errors tell of.

Each layer of an error tells of a segment that the reader looked at (`Segment.Tells`): of the
level around the brackets in which the rest of the error lies, or of the part in which
something is wrong.  What is inside of brackets is part of the text around them, so the
spans lie inside of one another, and as only brackets are taken off the ends of segments,
each span consists of tokens of the text with brackets missing at its ends.
-/
import Mathlib
import RecordFilter.Proofs.Filter.Depth
import RecordFilter.Proofs.Filter.Spelling

namespace RecordFilter

/-! ### Layers -/

namespace GrammarError

def span? : GrammarError → Option String
  | .tokenCount span _ => some span
  | .emptyToken _ => none
  | .unbalancedBrackets span => some span
  | .mixedLogic _ span => some span
  | .emptyCondition span => some span
  | .nested span _ => some span

def layers : GrammarError → List GrammarError
  | .nested span source => .nested span source :: source.layers
  | error => [error]

def spans (error : GrammarError) : List String := error.layers.filterMap span?

theorem getLast?_layers (error : GrammarError) : error.layers.getLast? = some error.rootCause := by
  induction error with
  | nested span source ih =>
      rw [layers, rootCause, List.getLast?_cons, ih]
      rfl
  | tokenCount | emptyToken | unbalancedBrackets | mixedLogic | emptyCondition => rfl

end GrammarError

namespace Filter

open Text (join)

/-! ### Parts of a text -/

theorem join_within {middle : List Token} (hMiddle : middle ≠ []) (front back : List Token) :
    join delimiter middle <:+: join delimiter (front ++ middle ++ back) := by
  have hFront : join delimiter middle <:+: join delimiter (front ++ middle) := by
    cases front with
    | nil => exact List.infix_rfl
    | cons token tokens =>
        rw [Text.join_append (List.cons_ne_nil token tokens) hMiddle]
        exact ⟨join delimiter (token :: tokens) ++ [delimiter], [], by simp⟩
  refine hFront.trans ?_
  cases back with
  | nil => exact ⟨[], [], by simp⟩
  | cons token tokens =>
      rw [Text.join_append (by simp [hMiddle]) (List.cons_ne_nil token tokens)]
      exact ⟨[], delimiter :: join delimiter (token :: tokens), by simp⟩

theorem closeLast_append (tokens : List Token) (token : Token) :
    closeLast (tokens ++ [token]) = tokens ++ [token ++ [rightBracket]] := by
  induction tokens with
  | nil => rfl
  | cons first tokens ih =>
      cases tokens with
      | nil => rfl
      | cons next tokens =>
          rw [List.cons_append] at ih
          rw [List.cons_append, List.cons_append, closeLast, ih, List.cons_append,
            List.cons_append, List.cons_append]

theorem iterate_openFirst (n : Nat) (token : Token) (tokens : List Token) :
    openFirst^[n] (token :: tokens) = (List.replicate n leftBracket ++ token) :: tokens := by
  induction n with
  | zero => rfl
  | succ n ih =>
      rw [Function.iterate_succ_apply', ih, openFirst, List.replicate_succ, List.cons_append]

theorem iterate_closeLast (n : Nat) (tokens : List Token) (token : Token) :
    closeLast^[n] (tokens ++ [token]) = tokens ++ [token ++ List.replicate n rightBracket] := by
  induction n with
  | zero => simp
  | succ n ih =>
      rw [Function.iterate_succ_apply', ih, closeLast_append, List.replicate_succ',
        List.append_assoc]

namespace Segment

open Relation (ReflTransGen)

variable {s root level : Segment} {i j : Nat} {error : GrammarError}

/-! ### What a segment shows -/

def shown (s : Segment) : List Token := (List.range' s.first s.size).map s.token

theorem shown_ne_nil (hOrder : s.first ≤ s.last) : s.shown ≠ [] := by
  rw [shown, ne_eq, List.map_eq_nil_iff, List.range'_eq_nil_iff]
  unfold size
  omega

theorem token_mem_shown (hFirst : s.first ≤ i) (hLast : i ≤ s.last) : s.token i ∈ s.shown := by
  apply List.mem_map_of_mem
  rw [List.mem_range'_1]
  unfold size
  omega

theorem positions_eq_ends (hSeveral : s.first < s.last) :
    List.range' s.first s.size =
      s.first :: (List.range' (s.first + 1) (s.last - s.first - 1) ++ [s.last]) := by
  have hSize : s.size = s.last - s.first - 1 + 1 + 1 := by
    unfold size
    omega
  have hLast : s.first + 1 + (s.last - s.first - 1) = s.last := by omega
  rw [hSize, List.range'_succ, List.range'_concat, Nat.one_mul, hLast]

theorem shown_eq_ends (hSeveral : s.first < s.last) :
    s.shown = s.token s.first ::
      ((List.range' (s.first + 1) (s.last - s.first - 1)).map s.token ++ [s.token s.last]) := by
  rw [shown, positions_eq_ends hSeveral, List.map_cons, List.map_append]
  rfl

theorem exists_shown_sub (hFirst : s.first ≤ i) (hOrder : i ≤ j) (hLast : j ≤ s.last) :
    ∃ front back, s.shown = front ++ (s.sub i j).shown ++ back := by
  have hSize : s.size = (i - s.first) + (j + 1 - i) + (s.last - j) := by
    unfold size
    omega
  have hPart : (s.sub i j).shown = (List.range' i (j + 1 - i)).map s.token := by
    apply List.map_congr_left
    intro k hMember
    rw [List.mem_range'_1] at hMember
    have hInside : i ≤ k ∧ k < i + (j + 1 - i) := hMember
    exact token_sub hFirst hLast hInside.1 (by omega)
  have hStart : s.first + (i - s.first) = i := by omega
  refine ⟨(List.range' s.first (i - s.first)).map s.token,
    (List.range' (s.first + ((i - s.first) + (j + 1 - i))) (s.last - j)).map s.token, ?_⟩
  rw [hPart, ← List.map_append, ← List.map_append, shown, hSize, ← List.range'_append_1,
    ← List.range'_append_1, hStart]

theorem text_sub_within (hFirst : s.first ≤ i) (hOrder : i ≤ j) (hLast : j ≤ s.last) :
    (s.sub i j).text.toList <:+: s.text.toList := by
  obtain ⟨front, back, hShown⟩ := exists_shown_sub hFirst hOrder hLast
  have hSome : (s.sub i j).shown ≠ [] := shown_ne_nil (s := s.sub i j) hOrder
  change (spanText (s.sub i j).shown).toList <:+: (spanText s.shown).toList
  rw [spanText, spanText, String.toList_ofList, String.toList_ofList, hShown]
  exact join_within hSome front back

theorem shown_eq_enclose (hSeveral : s.first < s.last) (hOpened : 0 < s.openedAt s.first)
    (hClosed : 0 < s.closedAt s.last) : s.shown = enclose s.strip.shown := by
  have hOther := Nat.ne_of_lt hSeveral
  have hFirst := cons_tail_of_leadingRun hOpened
  have hLast := dropLast_append_of_trailingRun hClosed
  have hMiddle : (List.range' (s.first + 1) (s.last - s.first - 1)).map s.strip.token =
      (List.range' (s.first + 1) (s.last - s.first - 1)).map s.token := by
    apply List.map_congr_left
    intro k hMember
    rw [List.mem_range'_1] at hMember
    exact token_strip_of_ne (by omega) (by omega)
  have hStrip := shown_eq_ends (s := s.strip) hSeveral
  change s.strip.shown = s.strip.token s.first ::
    ((List.range' (s.first + 1) (s.last - s.first - 1)).map s.strip.token ++
      [s.strip.token s.last]) at hStrip
  rw [hMiddle, token_strip_first hOther, token_strip_last hOther] at hStrip
  rw [hStrip, enclose, ← List.cons_append, closeLast_append, hLast, List.cons_append, openFirst,
    hFirst, shown_eq_ends hSeveral]

theorem text_level_within (hLevel : s.level = .ok level) :
    level.text.toList <:+: s.text.toList := by
  obtain ⟨hSize, ⟨hWraps, rfl⟩ | ⟨-, rfl⟩⟩ := level_cases hLevel
  · have hSlot := add_two_le_of_size hSize
    obtain ⟨hOpened, hClosed⟩ := ends_of_wrapsWhole hWraps
    have hOrder : s.first ≤ s.last := by omega
    have hSome : s.strip.shown ≠ [] := shown_ne_nil (s := s.strip) hOrder
    change (spanText s.strip.shown).toList <:+: (spanText s.shown).toList
    rw [spanText, spanText, String.toList_ofList, String.toList_ofList,
      shown_eq_enclose (by omega) hOpened hClosed, join_enclose hSome]
    exact ⟨[leftBracket], [rightBracket], rfl⟩
  · exact List.infix_rfl

/-- The tokens that are shown are tokens of the array, once the brackets that were taken off
the ends are glued to them again. -/
theorem CutsBrackets.iterate_shown (hCuts : s.CutsBrackets) :
    openFirst^[s.cutFront] (closeLast^[s.cutBack] s.shown) =
      (List.range' s.first s.size).map fun k => s.tokens.getD k [] := by
  rcases Nat.eq_or_lt_of_le hCuts.first_le with hSame | hSeveral
  · obtain ⟨hFront, hBack⟩ := hCuts.uncut_of_single hSame
    rw [hFront, hBack]
    apply List.map_congr_left
    intro k _
    exact token_of_uncut hFront hBack k
  · have hOther := Nat.ne_of_lt hSeveral
    have hFirst : List.replicate s.cutFront leftBracket ++ s.token s.first =
        s.tokens.getD s.first [] := by
      rw [token_first hOther]
      exact replicate_append_drop hCuts.cutFront_le
    have hLast : s.token s.last ++ List.replicate s.cutBack rightBracket =
        s.tokens.getD s.last [] := by
      rw [token_last hOther]
      exact take_append_replicate hCuts.cutBack_le
    have hMiddle : (List.range' (s.first + 1) (s.last - s.first - 1)).map s.token =
        (List.range' (s.first + 1) (s.last - s.first - 1)).map fun k => s.tokens.getD k [] := by
      apply List.map_congr_left
      intro k hMember
      rw [List.mem_range'_1] at hMember
      exact token_of_ne (by omega) (by omega)
    rw [shown_eq_ends hSeveral, ← List.cons_append, iterate_closeLast, List.cons_append,
      iterate_openFirst, hFirst, hLast, hMiddle, positions_eq_ends hSeveral, List.map_cons,
      List.map_append]
    rfl

/-! ### What errors tell of -/

/-- The layers of an error tell of segments that are looked at, the outermost of a part of a
given text, and each further one of a part of what the one around it tells of. -/
structure Tells (root : Segment) (around : String) (error : GrammarError) : Prop where
  inside : List.IsChain (fun outer inner : String => inner.toList <:+: outer.toList)
    (around :: error.spans)
  located : ∀ layer ∈ error.layers, ∃ w, root.LooksAt w ∧ layer.span? = some w.text ∧
    ∀ token span, layer = .mixedLogic token span → token.toList ∈ w.shown

theorem Tells.mono {around text : String} (hTells : root.Tells text error)
    (hInside : text.toList <:+: around.toList) : root.Tells around error where
  inside := by
    have hChain := hTells.inside
    cases hSpans : error.spans with
    | nil => exact .singleton around
    | cons span spans =>
        rw [hSpans, List.isChain_cons_cons] at hChain
        rw [List.isChain_cons_cons]
        exact ⟨hChain.1.trans hInside, hChain.2⟩
  located := hTells.located

theorem Tells.single {around : String} (hLooks : root.LooksAt s)
    (hInside : s.text.toList <:+: around.toList) (hLayers : error.layers = [error])
    (hSpan : error.span? = some s.text)
    (hToken : ∀ token span, error = .mixedLogic token span → token.toList ∈ s.shown) :
    root.Tells around error where
  inside := by
    rw [GrammarError.spans, hLayers, List.filterMap_cons_some hSpan, List.filterMap_nil,
      List.isChain_cons_cons]
    exact ⟨hInside, .singleton s.text⟩
  located := by
    intro layer hLayer
    rw [hLayers, List.mem_singleton] at hLayer
    subst hLayer
    exact ⟨s, hLooks, hSpan, hToken⟩

theorem Tells.nested {source : GrammarError} (hLooks : root.LooksAt s)
    (hSource : root.Tells s.text source) : root.Tells s.text (.nested s.text source) where
  inside := by
    have hSpans : (GrammarError.nested s.text source).spans = s.text :: source.spans := rfl
    rw [hSpans, List.isChain_cons_cons]
    exact ⟨List.infix_rfl, hSource.inside⟩
  located := by
    intro layer hLayer
    rw [GrammarError.layers] at hLayer
    rcases List.mem_cons.mp hLayer with rfl | hInner
    · exact ⟨s, hLooks, rfl, fun _ _ hMixed => by cases hMixed⟩
    · exact hSource.located layer hInner

theorem Tells.unbalanced (hLooks : root.LooksAt s) (hFirst : s.first ≤ i) (hMore : i + 2 ≤ s.last)
    (hClosing : s.closing i = .error error) : root.Tells s.text error := by
  obtain ⟨j, hSlot, hLast, rfl⟩ := exists_part_of_closing hMore hClosing
  exact .single (.part hLooks hFirst hSlot hLast) (text_sub_within hFirst (by omega) hLast) rfl rfl
    fun _ _ hMixed => by cases hMixed

theorem Tells.leaf (hLooks : root.LooksAt s) (hFirst : s.first ≤ i) (hMore : i + 2 ≤ s.last)
    (hLeaf : s.leaf i = .error error) : root.Tells s.text error := by
  have hPart : root.LooksAt (s.sub i (i + 2)) := .part hLooks hFirst (Nat.le_refl _) hMore
  have hInside : (s.sub i (i + 2)).text.toList <:+: s.text.toList :=
    text_sub_within hFirst (by omega) hMore
  unfold Segment.leaf at hLeaf
  split at hLeaf
  · cases hLeaf
    exact .single hPart hInside rfl rfl fun _ _ hMixed => by cases hMixed
  · split at hLeaf
    · cases hLeaf
      exact .single hPart hInside rfl rfl fun _ _ hMixed => by cases hMixed
    · cases hLeaf

theorem Tells.connective {logic : Option Logic} (hLooks : root.LooksAt s) (hFirst : s.first ≤ i)
    (hLogic : s.logicAt logic i = .error error) : root.Tells s.text error := by
  unfold logicAt at hLogic
  split at hLogic
  · rename_i hLast
    split at hLogic
    · cases hLogic
      refine .single hLooks List.infix_rfl rfl rfl ?_
      intro token span hMixed
      cases hMixed
      rw [String.toList_ofList]
      exact token_mem_shown hFirst hLast
    · cases hLogic
  · cases hLogic

/-- Where a scan stops, the error tells of the level or of a part of it, if this is so of what
is read inside of brackets. -/
theorem StopsAt.tells {logic : Option Logic} (hLooks : root.LooksAt s) (hFirst : s.first ≤ i)
    (hMore : i + 2 ≤ s.last) (hStop : s.StopsAt logic i error)
    (hInner : ∀ j source, 0 < s.openedAt i → s.closing i = .ok j →
      (s.sub i j).read = .error source → root.Tells (s.sub i j).text source) :
    root.Tells s.text error := by
  cases hStop with
  | unended hEnd =>
      unfold itemEnd at hEnd
      split at hEnd
      · exact .unbalanced hLooks hFirst hMore hEnd
      · cases hEnd
  | connective hEnd _ hLogic =>
      have hBehind := lt_itemEnd hEnd
      exact .connective hLooks (by omega) hLogic
  | @item j hEnd hItem =>
      unfold Segment.item at hItem
      split at hItem
      · rename_i hOpened
        rw [itemEnd, if_pos hOpened] at hEnd
        obtain ⟨⟨slots, hSlots⟩, hLast⟩ := closingFrom_bounds hEnd
        cases hRead : (s.sub i j).read with
        | ok tree =>
            rw [hRead] at hItem
            cases hItem
        | error source =>
            rw [hRead] at hItem
            cases hItem
            have hSource := hInner j source hOpened hEnd hRead
            exact .nested hLooks (hSource.mono (text_sub_within hFirst (by omega) hLast))
      · exact .leaf hLooks hFirst hMore hItem

theorem tells_of_read (hPath : ReflTransGen Descends root s) (hRead : s.read = .error error) :
    root.Tells s.text error := by
  -- what is read inside of brackets comes before what stands around them
  induction s using wellFounded_descends.induction generalizing error with
  | _ s ih =>
      unfold read at hRead
      cases hLevel : s.level with
      | error cause =>
          rw [hLevel] at hRead
          cases hRead
          obtain rfl | ⟨hMore, hClosing⟩ := level_eq_error hLevel
          · exact .single (.entered hPath) List.infix_rfl rfl rfl fun _ _ hMixed => by cases hMixed
          · exact .unbalanced (.entered hPath) (Nat.le_refl _) hMore hClosing
      | ok level =>
          rw [hLevel] at hRead
          have hLooks : root.LooksAt level := .level hPath hLevel
          have hInside := text_level_within hLevel
          obtain ⟨logic, i, hScan, hMore, hStop⟩ | rfl := exists_stop_of_readFrom .first hRead
          · refine (hStop.tells hLooks hScan.first_le hMore ?_).mono hInside
            intro j source hOpened hClosing hSource
            have hInner : Descends s (level.sub i j) := .inside hLevel hScan hMore hOpened hClosing
            exact ih _ hInner (hPath.tail hInner) hSource
          · exact .single hLooks hInside rfl rfl fun _ _ hMixed => by cases hMixed

/-! ### Spans as runs of tokens -/

theorem CutsBrackets.shown_within (hCuts : s.CutsBrackets) :
    openFirst^[s.cutFront] (closeLast^[s.cutBack] s.shown) <:+: s.tokens.toList := by
  have hRun := map_token_eq_extract s.first hCuts.last_lt
  have hShown : openFirst^[s.cutFront] (closeLast^[s.cutBack] s.shown) =
      s.tokens.toList.extract s.first (s.last + 1) := by
    rw [hCuts.iterate_shown, ← hRun]
    apply List.map_congr_left
    intro k _
    exact (token_of_uncut (s := ⟨s.tokens, s.first, s.last, 0, 0⟩) rfl rfl k).symm
  have hFront := List.take_prefix (s.last + 1 - s.first) (s.tokens.toList.drop s.first)
  rw [hShown, List.extract_eq_take_drop]
  exact hFront.isInfix.trans (List.drop_suffix s.first s.tokens.toList).isInfix

theorem CutsBrackets.shown_free (hCuts : s.CutsBrackets)
    (hFree : ∀ token ∈ s.tokens, delimiter ∉ token) {token : Token} (hShown : token ∈ s.shown) :
    delimiter ∉ token := by
  obtain ⟨i, hMember, rfl⟩ := List.mem_map.mp hShown
  rw [List.mem_range'_1] at hMember
  unfold size at hMember
  have hInside : i < s.tokens.size := by
    have hLast := hCuts.last_lt
    omega
  have hWhole := hCuts.token_between i
  have hToken : delimiter ∉ s.tokens.getD i [] := by
    rw [Array.getD_eq_getD_getElem?, Array.getElem?_eq_getElem hInside, Option.getD_some]
    exact hFree _ (Array.getElem_mem hInside)
  rw [← hWhole] at hToken
  simp only [List.mem_append, not_or] at hToken
  exact hToken.1.2

theorem CutsBrackets.split_text (hCuts : s.CutsBrackets)
    (hFree : ∀ token ∈ s.tokens, delimiter ∉ token) :
    Text.split delimiter s.text.toList = s.shown := by
  rw [text, spanText, String.toList_ofList, ← shown]
  exact Text.split_join (shown_ne_nil hCuts.first_le) fun token hToken =>
    hCuts.shown_free hFree hToken

/-! ### All tokens of a text -/

def whole (input : String) : Segment where
  tokens := (Text.split delimiter input.toList).toArray
  first := 0
  last := (Text.split delimiter input.toList).length - 1

theorem whole_last_lt (input : String) : (whole input).last < (whole input).tokens.size := by
  have hPositive := List.length_pos_iff.mpr (Text.split_ne_nil delimiter input.toList)
  change _ - 1 < (Text.split delimiter input.toList).toArray.size
  rw [List.size_toArray]
  omega

theorem shown_whole (input : String) :
    (whole input).shown = Text.split delimiter input.toList := by
  have hPositive := List.length_pos_iff.mpr (Text.split_ne_nil delimiter input.toList)
  have hEnd : (whole input).last + 1 = (Text.split delimiter input.toList).length := by
    change _ - 1 + 1 = _
    omega
  have hShown : (whole input).shown =
      (Text.split delimiter input.toList).extract 0 ((whole input).last + 1) :=
    map_token_eq_extract 0 (whole_last_lt input)
  rw [hShown, hEnd, List.extract_eq_take_drop, List.drop_zero, Nat.sub_zero, List.take_length]

theorem text_whole (input : String) : (whole input).text = input := by
  change spanText (whole input).shown = input
  rw [spanText, shown_whole, Text.join_split, String.ofList_toList]

theorem read_whole_of_parse {input : String} (hParse : parse input = .error error) :
    (∃ position, error = .emptyToken position) ∨ (whole input).read = .error error := by
  unfold parse at hParse
  split at hParse
  · cases hParse
  · cases hTokenize : tokenize input with
    | error cause =>
        obtain ⟨before, _, _, _, rfl⟩ := tokenize_eq_error_iff.mp hTokenize
        rw [hTokenize] at hParse
        cases hParse
        exact .inl ⟨before.length, rfl⟩
    | ok tokens =>
        obtain ⟨rfl, -⟩ := tokenize_eq_ok_iff.mp hTokenize
        rw [hTokenize] at hParse
        have hRange : parseTokens (Text.split delimiter input.toList).toArray 0
            ((Text.split delimiter input.toList).length - 1) = (whole input).read :=
          if_pos ⟨Nat.zero_le _, whole_last_lt input⟩
        simp only [hRange] at hParse
        cases hRead : (whole input).read with
        | ok filter =>
            rw [hRead] at hParse
            cases hParse
        | error cause =>
            rw [hRead] at hParse
            cases hParse
            exact .inr rfl

end Segment

/-- An error of a text, if it is none about an empty token, tells of a part of the text, and
each error that it wraps of a part of what the error around it tells of, down to the innermost
one.  Each part is a run of tokens of the text, but for brackets that are missing at the front
of its first token and at the end of its last one; a connective that does not fit is one of the
tokens of its own part. -/
theorem parse_error_spans_nest {input : String} {error : GrammarError}
    (hParse : parse input = .error error) (hOther : ∀ position, error ≠ .emptyToken position) :
    List.IsChain (fun outer inner : String => inner.toList <:+: outer.toList)
        (input :: error.spans) ∧
      error.layers.getLast? = some error.rootCause ∧
      ∀ layer ∈ error.layers, ∃ span, layer.span? = some span ∧
        (∃ opened closed,
          openFirst^[opened] (closeLast^[closed] (Text.split delimiter span.toList)) <:+:
            Text.split delimiter input.toList) ∧
        ∀ token, layer = .mixedLogic token span →
          token.toList ∈ Text.split delimiter span.toList := by
  obtain ⟨position, rfl⟩ | hRead := Segment.read_whole_of_parse hParse
  · exact absurd rfl (hOther position)
  have hCuts : (Segment.whole input).CutsBrackets :=
    Segment.cutsBrackets_range (Nat.zero_le _) (Segment.whole_last_lt input)
  have hTells := Segment.tells_of_read .refl hRead
  rw [Segment.text_whole] at hTells
  refine ⟨hTells.inside, error.getLast?_layers, ?_⟩
  intro layer hLayer
  obtain ⟨w, hLooks, hSpan, hToken⟩ := hTells.located layer hLayer
  obtain ⟨hPart, hTokens⟩ := hCuts.of_looksAt hLooks
  have hFree : ∀ token ∈ w.tokens, delimiter ∉ token := by
    intro token hMember
    rw [hTokens] at hMember
    exact Text.not_mem_of_mem_split (List.mem_toArray.mp hMember)
  have hShown := hPart.split_text hFree
  refine ⟨w.text, hSpan, ⟨w.cutFront, w.cutBack, ?_⟩, ?_⟩
  · have hRun := hPart.shown_within
    rw [hTokens] at hRun
    rw [hShown]
    exact hRun
  · intro token hMixed
    rw [hShown]
    exact hToken token w.text hMixed

/-- Two levels of brackets, with a connective that is none on the inner one. -/
theorem parse_error_spans_nest_inner :
    let input := "a~eq~1~and~((b~eq~2)~or~(c~eq~3~xor~d~eq~4))"
    let error : GrammarError := .nested input (.nested "(b~eq~2)~or~(c~eq~3~xor~d~eq~4)"
      (.mixedLogic "xor" "c~eq~3~xor~d~eq~4"))
    parse input = .error error ∧ (∀ position, error ≠ .emptyToken position) ∧
      List.IsChain (fun outer inner : String => inner.toList <:+: outer.toList)
        (input :: error.spans) ∧
      error.rootCause = .mixedLogic "xor" "c~eq~3~xor~d~eq~4" := by
  intro input error
  have hParse : parse input = .error error := by
    rw [parse_of_tokens (by decide) (by decide)]
    cbv
  have hOther : ∀ position, error ≠ .emptyToken position := by simp [error]
  exact ⟨hParse, hOther, (parse_error_spans_nest hParse hOther).1, rfl⟩

end Filter
end RecordFilter
