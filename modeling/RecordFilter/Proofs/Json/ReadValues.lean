/-
What the values that were read have in common.

The entries of their objects are in order, each key once, and their arrays and objects
are nested as deep as the reader allows or less.  The reader keeps both properties for
all that it holds, token by token.
-/
import RecordFilter.Proofs.Json.Rereading

namespace RecordFilter
namespace Json

/-! ### Entries in order -/

theorem sortedEntries_iff_pairwise (entries : List (String × Value)) :
    SortedEntries entries ↔ entries.Pairwise fun left right => keyOrder left.1 right.1 = .lt := by
  induction entries with
  | nil => exact iff_of_true trivial .nil
  | cons first entries ih =>
      cases entries with
      | nil => exact iff_of_true trivial (List.pairwise_singleton _ _)
      | cons second entries =>
          rw [SortedEntries, ih]
          constructor
          · rintro ⟨hFirst, hRest⟩
            refine .cons ?_ hRest
            rw [List.forall_mem_cons]
            refine ⟨hFirst, ?_⟩
            intro entry hMem
            exact Text.order_trans hFirst ((List.pairwise_cons.1 hRest).1 entry hMem)
          · intro hSorted
            obtain ⟨hFirst, hRest⟩ := List.pairwise_cons.1 hSorted
            exact ⟨hFirst second List.mem_cons_self, hRest⟩

theorem mem_insertEntry {key : String} {value : Value} {entries : List (String × Value)}
    {entry : String × Value} (hMem : entry ∈ insertEntry key value entries) :
    entry = (key, value) ∨ entry ∈ entries := by
  induction entries with
  | nil => exact .inl (List.mem_singleton.1 hMem)
  | cons first entries ih =>
      obtain ⟨other, held⟩ := first
      unfold insertEntry at hMem
      cases hOrder : keyOrder key other with
      | lt =>
          rw [hOrder] at hMem
          exact List.mem_cons.1 hMem
      | eq =>
          rw [hOrder] at hMem
          exact (List.mem_cons.1 hMem).imp id (List.mem_cons_of_mem _)
      | gt =>
          rw [hOrder] at hMem
          rcases List.mem_cons.1 hMem with rfl | hRest
          · exact .inr List.mem_cons_self
          · exact (ih hRest).imp id (List.mem_cons_of_mem _)

theorem sortedEntries_insertEntry (key : String) (value : Value)
    {entries : List (String × Value)} (hSorted : SortedEntries entries) :
    SortedEntries (insertEntry key value entries) := by
  rw [sortedEntries_iff_pairwise] at hSorted ⊢
  induction entries with
  | nil => exact List.pairwise_singleton _ _
  | cons first entries ih =>
      obtain ⟨other, held⟩ := first
      obtain ⟨hFirst, hRest⟩ := List.pairwise_cons.1 hSorted
      unfold insertEntry
      cases hOrder : keyOrder key other with
      | lt =>
          refine .cons ?_ hSorted
          rw [List.forall_mem_cons]
          exact ⟨hOrder, fun entry hMem => Text.order_trans hOrder (hFirst entry hMem)⟩
      | eq =>
          obtain rfl := String.toList_inj.1 ((Text.order_eq_iff _ _).1 hOrder)
          exact .cons hFirst hRest
      | gt =>
          have hBefore : keyOrder other key = .lt := by
            rw [keyOrder, ← Text.order_swap, ← keyOrder, hOrder]
            rfl
          refine .cons ?_ (ih hRest)
          intro entry hMem
          rcases mem_insertEntry hMem with rfl | hOld
          · exact hBefore
          · exact hFirst entry hOld

theorem insertEntry_last {key : String} (value : Value) {entries : List (String × Value)}
    (hLast : ∀ entry ∈ entries, keyOrder entry.1 key = .lt) :
    insertEntry key value entries = entries ++ [(key, value)] := by
  induction entries with
  | nil => rfl
  | cons first entries ih =>
      obtain ⟨other, held⟩ := first
      rw [List.forall_mem_cons] at hLast
      have hBehind : keyOrder key other = .gt := by
        rw [keyOrder, ← Text.order_swap, ← keyOrder, hLast.1]
        rfl
      rw [insertEntry, hBehind, List.cons_append, ih hLast.2]

def insertAll (before entries : List (String × Value)) : List (String × Value) :=
  entries.foldl (fun sorted entry => insertEntry entry.1 entry.2 sorted) before

theorem mem_insertAll {before entries : List (String × Value)} {entry : String × Value}
    (hMem : entry ∈ insertAll before entries) : entry ∈ before ∨ entry ∈ entries := by
  induction entries generalizing before with
  | nil => exact .inl hMem
  | cons first entries ih =>
      rcases ih hMem with hInserted | hLater
      · rcases mem_insertEntry hInserted with rfl | hBefore
        · exact .inr List.mem_cons_self
        · exact .inl hBefore
      · exact .inr (List.mem_cons_of_mem _ hLater)

theorem sortedEntries_insertAll (entries : List (String × Value))
    {before : List (String × Value)} (hSorted : SortedEntries before) :
    SortedEntries (insertAll before entries) := by
  induction entries generalizing before with
  | nil => exact hSorted
  | cons first entries ih => exact ih (sortedEntries_insertEntry first.1 first.2 hSorted)

theorem insertAll_of_sortedEntries {before entries : List (String × Value)}
    (hSorted : SortedEntries (before ++ entries)) :
    insertAll before entries = before ++ entries := by
  induction entries generalizing before with
  | nil => exact (List.append_nil before).symm
  | cons first entries ih =>
      have hPairwise := (sortedEntries_iff_pairwise _).1 hSorted
      have hLast : ∀ entry ∈ before, keyOrder entry.1 first.1 = .lt := by
        intro entry hMem
        exact (List.pairwise_append.1 hPairwise).2.2 entry hMem first List.mem_cons_self
      have hNext : before ++ first :: entries = before ++ [first] ++ entries := by
        rw [List.append_assoc, List.singleton_append]
      rw [hNext] at hSorted ⊢
      rw [← ih hSorted, ← insertEntry_last first.2 hLast]
      rfl

/-! ### Values in order and within a depth -/

theorem arrangedItems_eq_map (items : List Value) :
    arrangedItems items = items.map Value.arranged := by
  induction items with
  | nil => rfl
  | cons item items ih => rw [arrangedItems, ih, List.map_cons]

theorem arrangedEntries_eq_map (entries : List (String × Value)) :
    arrangedEntries entries = entries.map fun entry => (entry.1, entry.2.arranged) := by
  induction entries with
  | nil => rfl
  | cons entry entries ih => rw [arrangedEntries, ih, List.map_cons]

theorem itemDepth_le_iff {items : List Value} {room : Nat} :
    itemDepth items ≤ room ↔ ∀ item ∈ items, item.depth ≤ room := by
  induction items with
  | nil => simp [itemDepth]
  | cons item items ih => rw [itemDepth, Nat.max_le, ih, List.forall_mem_cons]

theorem entryDepth_le_iff {entries : List (String × Value)} {room : Nat} :
    entryDepth entries ≤ room ↔ ∀ entry ∈ entries, entry.2.depth ≤ room := by
  induction entries with
  | nil => simp [entryDepth]
  | cons entry entries ih => rw [entryDepth, Nat.max_le, ih, List.forall_mem_cons]

/-- A value whose objects are in order and that is nested `room` deep at most. -/
structure Value.Fits (room : Nat) (v : Value) : Prop where
  arranged : v.arranged = v
  depth_le : v.depth ≤ room

theorem fits_array {room : Nat} {items : List Value} (hItems : ∀ item ∈ items, item.Fits room) :
    (Value.array items).Fits (room + 1) where
  arranged := by
    have hMap : items.map Value.arranged = items.map id :=
      List.map_congr_left fun item hMem => (hItems item hMem).arranged
    rw [Value.arranged, arrangedItems_eq_map, hMap, List.map_id]
  depth_le := by
    have hDepth : itemDepth items ≤ room :=
      itemDepth_le_iff.2 fun item hMem => (hItems item hMem).depth_le
    rw [Value.depth]
    omega

theorem fits_ofEntries {room : Nat} {entries : List (String × Value)}
    (hEntries : ∀ entry ∈ entries, entry.2.Fits room) :
    (Value.ofEntries entries).Fits (room + 1) := by
  have hFits : ∀ entry ∈ insertAll [] entries, entry.2.Fits room := by
    intro entry hMem
    exact hEntries entry ((mem_insertAll hMem).resolve_left List.not_mem_nil)
  have hSorted : SortedEntries (insertAll [] entries) := sortedEntries_insertAll entries trivial
  have hObject : Value.ofEntries entries = .object (insertAll [] entries) := rfl
  rw [hObject]
  generalize insertAll [] entries = sorted at hFits hSorted
  constructor
  · have hMap : (sorted.map fun entry => (entry.1, entry.2.arranged)) = sorted.map id :=
      List.map_congr_left fun entry hMem => Prod.ext rfl (hFits entry hMem).arranged
    have hSame : insertAll [] sorted = sorted := insertAll_of_sortedEntries hSorted
    rw [Value.arranged, arrangedEntries_eq_map, hMap, List.map_id]
    exact congrArg Value.object hSame
  · have hDepth : entryDepth sorted ≤ room :=
      entryDepth_le_iff.2 fun entry hMem => (hFits entry hMem).depth_le
    rw [Value.depth]
    omega

/-! ### Tokens that were read -/

def Token.Fits : Token → Prop
  | .scalar v => v.Fits 0
  | _ => True

theorem floatOfDigits?_fits {negative : Bool} {whole fraction : List Char} {power : Int}
    {v : Value} (hRead : floatOfDigits? negative whole fraction power = some v) : v.Fits 0 := by
  obtain ⟨size, -, hMap⟩ := Option.bind_eq_some_iff.1 hRead
  obtain ⟨x, -, rfl⟩ := Option.map_eq_some_iff.1 hMap
  exact ⟨rfl, Nat.le_refl 0⟩

theorem numberOfParts?_fits {negative : Bool} {whole : List Char} {fraction : Option (List Char)}
    {power : Option Int} {v : Value}
    (hRead : numberOfParts? negative whole fraction power = some v) : v.Fits 0 := by
  unfold numberOfParts? at hRead
  split at hRead
  · unfold integerOfDigits? at hRead
    simp only at hRead
    split at hRead
    · exact floatOfDigits?_fits hRead
    · split at hRead
      · cases hRead
        exact ⟨rfl, Nat.le_refl 0⟩
      · exact floatOfDigits?_fits hRead
  · exact floatOfDigits?_fits hRead

theorem readNumber?_fits {text : List Char} {found : Value × List Char}
    (hRead : readNumber? text = some found) : found.1.Fits 0 := by
  simp only [readNumber?] at hRead
  split at hRead
  · obtain ⟨fraction, -, hRead⟩ := Option.bind_eq_some_iff.1 hRead
    obtain ⟨power, -, hRead⟩ := Option.bind_eq_some_iff.1 hRead
    obtain ⟨value, hValue, rfl⟩ := Option.map_eq_some_iff.1 hRead
    exact numberOfParts?_fits hValue
  · cases hRead

theorem next?_fits {text rest : List Char} {token : Token}
    (hNext : next? text = some (token, rest)) : token.Fits := by
  have hScalar : Value.null.Fits 0 ∧ ∀ b, (Value.bool b).Fits 0 :=
    ⟨⟨rfl, Nat.le_refl 0⟩, fun b => ⟨rfl, Nat.le_refl 0⟩⟩
  unfold next? at hNext
  split at hNext
  case h_1 => cases hNext
  case h_8 =>
    obtain ⟨found, -, hPair⟩ := Option.map_eq_some_iff.1 hNext
    cases hPair
    trivial
  case h_9 =>
    cases hNext
    exact hScalar.1
  case h_10 =>
    cases hNext
    exact hScalar.2 true
  case h_11 =>
    cases hNext
    exact hScalar.2 false
  case h_12 =>
    obtain ⟨found, hFound, hPair⟩ := Option.map_eq_some_iff.1 hNext
    cases hPair
    exact readNumber?_fits hFound
  all_goals
    cases hNext
    trivial

theorem ofText?_fits {text : List Char} {tokens : List Token}
    (hRead : Token.ofText? text = some tokens) : ∀ token ∈ tokens, token.Fits := by
  fun_induction Token.ofText? text generalizing tokens with
  | case1 =>
      cases hRead
      exact List.forall_mem_nil _
  | case2 c cs hSpacing ih => exact ih hRead
  | case3 => cases hRead
  | case4 c cs hPlain token rest hNext ih =>
      obtain ⟨more, hMore, rfl⟩ := Option.map_eq_some_iff.1 hRead
      rw [List.forall_mem_cons]
      exact ⟨next?_fits hNext, ih hMore⟩

/-! ### The reader token by token -/

def Frame.Fits (room : Nat) : Frame → Prop
  | .items before => ∀ item ∈ before, item.Fits room
  | .entries before _ => ∀ entry ∈ before, entry.2.Fits room

/-- Open arrays and objects, of which the innermost has room for values nested `room`
deep. -/
inductive FramesFit : Nat → List Frame → Prop where
  | nil : FramesFit nestingLimit []
  | cons {room : Nat} {frame : Frame} {frames : List Frame} (hFrame : frame.Fits room)
      (hFrames : FramesFit (room + 1) frames) : FramesFit room (frame :: frames)

theorem FramesFit.room_add {room : Nat} {frames : List Frame} (hFrames : FramesFit room frames) :
    room + frames.length = nestingLimit := by
  induction hFrames with
  | nil => rfl
  | cons hFrame hFrames ih =>
      rw [List.length_cons]
      omega

theorem FramesFit.of_cons {room : Nat} {frame : Frame} {frames : List Frame}
    (hFrames : FramesFit room (frame :: frames)) :
    frame.Fits room ∧ FramesFit (room + 1) frames := by
  cases hFrames with
  | cons hFrame hFrames => exact ⟨hFrame, hFrames⟩

namespace Place

def Fits : Place → Prop
  | .value frames => ∃ room, FramesFit room frames
  | .firstItem frames => ∃ room, FramesFit (room + 1) frames
  | .afterItem frames items => ∃ room, FramesFit room (.items items :: frames)
  | .firstKey frames => ∃ room, FramesFit (room + 1) frames
  | .nextKey frames entries => ∃ room, FramesFit room (.entries entries "" :: frames)
  | .afterKey frames entries key => ∃ room, FramesFit room (.entries entries key :: frames)
  | .afterEntry frames entries => ∃ room, FramesFit room (.entries entries "" :: frames)
  | .done v => v.Fits nestingLimit

variable {room : Nat} {frames : List Frame}

theorem fits_afterValue {v : Value} (hFrames : FramesFit room frames) (hValue : v.Fits room) :
    (afterValue v frames).Fits := by
  cases hFrames with
  | nil => exact hValue
  | @cons _ frame frames hFrame hFrames =>
      cases frame with
      | items before =>
          exact ⟨room, .cons (List.forall_mem_cons.2 ⟨hValue, hFrame⟩) hFrames⟩
      | entries before key =>
          exact ⟨room, .cons (List.forall_mem_cons.2 ⟨hValue, hFrame⟩) hFrames⟩

theorem exists_room (hFrames : FramesFit room frames) (hRoom : frames.length < nestingLimit) :
    ∃ inner, FramesFit (inner + 1) frames := by
  have hSum := hFrames.room_add
  cases room with
  | zero => omega
  | succ inner => exact ⟨inner, hFrames⟩

theorem fits_begin? {token : Token} {next : Place} (hFrames : FramesFit room frames)
    (hToken : token.Fits) (hBegin : begin? frames token = some next) : next.Fits := by
  unfold begin? at hBegin
  split at hBegin
  · cases hBegin
    exact fits_afterValue hFrames ⟨hToken.arranged, Nat.le_trans hToken.depth_le room.zero_le⟩
  · cases hBegin
    exact fits_afterValue hFrames ⟨rfl, room.zero_le⟩
  · split at hBegin
    · rename_i hRoom
      cases hBegin
      exact exists_room hFrames hRoom
    · cases hBegin
  · split at hBegin
    · rename_i hRoom
      cases hBegin
      exact exists_room hFrames hRoom
    · cases hBegin
  · cases hBegin

theorem fits_step? {place next : Place} {token : Token} (hPlace : place.Fits)
    (hToken : token.Fits) (hStep : place.step? token = some next) : next.Fits := by
  unfold step? at hStep
  split at hStep
  case h_1 =>
    obtain ⟨room, hFrames⟩ := hPlace
    exact fits_begin? hFrames hToken hStep
  case h_2 =>
    obtain ⟨room, hFrames⟩ := hPlace
    cases hStep
    exact fits_afterValue hFrames (fits_array (List.forall_mem_nil _))
  case h_3 =>
    obtain ⟨room, hFrames⟩ := hPlace
    have hEmpty : (Frame.items []).Fits room := List.forall_mem_nil _
    exact fits_begin? (.cons hEmpty hFrames) hToken hStep
  case h_4 =>
    cases hStep
    exact hPlace
  case h_5 frames items =>
    -- the array is closed, and its items stand in reverse
    obtain ⟨room, hOpen⟩ := hPlace
    obtain ⟨hFrame, hFrames⟩ := hOpen.of_cons
    cases hStep
    apply fits_afterValue hFrames (fits_array _)
    intro item hMem
    exact hFrame item (List.mem_reverse.1 hMem)
  case h_6 =>
    obtain ⟨room, hFrames⟩ := hPlace
    cases hStep
    exact fits_afterValue hFrames (fits_ofEntries (List.forall_mem_nil _))
  case h_7 =>
    obtain ⟨room, hFrames⟩ := hPlace
    cases hStep
    have hEmpty : ∀ key, (Frame.entries [] key).Fits room := fun _ => List.forall_mem_nil _
    exact ⟨room, .cons (hEmpty _) hFrames⟩
  case h_8 =>
    obtain ⟨room, hOpen⟩ := hPlace
    obtain ⟨hFrame, hFrames⟩ := hOpen.of_cons
    cases hStep
    exact ⟨room, .cons hFrame hFrames⟩
  case h_9 =>
    obtain ⟨room, hFrames⟩ := hPlace
    cases hStep
    exact ⟨room, hFrames⟩
  case h_10 =>
    obtain ⟨room, hOpen⟩ := hPlace
    obtain ⟨hFrame, hFrames⟩ := hOpen.of_cons
    cases hStep
    exact ⟨room, .cons hFrame hFrames⟩
  case h_11 frames entries =>
    -- the object is closed: its entries come in any order and are sorted here
    obtain ⟨room, hOpen⟩ := hPlace
    obtain ⟨hFrame, hFrames⟩ := hOpen.of_cons
    cases hStep
    apply fits_afterValue hFrames (fits_ofEntries _)
    intro entry hMem
    exact hFrame entry (List.mem_reverse.1 hMem)
  case h_12 => cases hStep

theorem fits_run? {place last : Place} {tokens : List Token} (hPlace : place.Fits)
    (hTokens : ∀ token ∈ tokens, token.Fits) (hRun : place.run? tokens = some last) :
    last.Fits := by
  induction tokens generalizing place with
  | nil =>
      cases hRun
      exact hPlace
  | cons token tokens ih =>
      rw [List.forall_mem_cons] at hTokens
      rw [run?] at hRun
      cases hStep : place.step? token with
      | none =>
          rw [hStep] at hRun
          cases hRun
      | some next =>
          rw [hStep] at hRun
          exact ih (fits_step? hPlace hTokens.1 hStep) hTokens.2 hRun

end Place

/-- A value that was read is in order and nested no deeper than the reader allows. -/
theorem Value.fits_of_ofText? {text : List Char} {v : Value} (hRead : ofText? text = some v) :
    v.Fits nestingLimit := by
  unfold ofText? at hRead
  split at hRead
  · cases hRead
  · rename_i tokens hTokens
    unfold ofTokens? at hRead
    split at hRead
    · rename_i found hRun
      cases hRead
      have hStart : (Place.value []).Fits := ⟨nestingLimit, .nil⟩
      exact Place.fits_run? hStart (ofText?_fits hTokens) hRun
    · cases hRead

end Json
end RecordFilter
