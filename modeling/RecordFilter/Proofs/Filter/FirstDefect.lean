/-
Where the text of a filter is wrong.

The brackets, the groups and the defects of a text are described by its tokens
alone: the field of the comparison `k` is the token `4 * k`, and the connective
behind it the token `4 * k + 3`.  Passing over the tokens finds the first defect,
because the connectives that are kept on the way are those of the groups that
are open (`Stacked`), and so the reader tells of it.
-/
import Mathlib.Algebra.BigOperators.Group.Finset.Basic
import Mathlib.Algebra.BigOperators.Intervals
import RecordFilter.Proofs.Filter.Scan

namespace RecordFilter
namespace Filter

/-! ### Brackets and groups -/

section Tokens

variable (tokens : List Token)

def tokenAt (i : Nat) : Token := tokens.getD i []

def slotAt (k : Nat) : Slot where
  field := tokenAt tokens (4 * k)
  operator := tokenAt tokens (4 * k + 1)
  value := tokenAt tokens (4 * k + 2)

/-- The token between the comparisons `k` and `k + 1`. -/
def connectiveAt (k : Nat) : Token := tokenAt tokens (4 * k + 3)

/-- How many more brackets are opened than closed by the first `k` comparisons. -/
def openBefore (k : Nat) : Int :=
  ∑ i ∈ Finset.range k, (((slotAt tokens i).opened : Int) - (slotAt tokens i).closed)

/-- No bracket is closed that is not open, and none stays open. -/
def BracketsBalanced : Prop :=
  (∀ k ≤ (tokens.length + 1) / 4, 0 ≤ openBefore tokens k) ∧
    openBefore tokens ((tokens.length + 1) / 4) = 0

/-- The connective `j` stands in the group of the connective `k`, which comes behind it:
equally many brackets are open at both, and no fewer between them. -/
def SameGroup (j k : Nat) : Prop :=
  openBefore tokens (j + 1) = openBefore tokens (k + 1) ∧
    ∀ i, j ≤ i → i ≤ k → openBefore tokens (k + 1) ≤ openBefore tokens (i + 1)

instance : Decidable (BracketsBalanced tokens) :=
  inferInstanceAs (Decidable (_ ∧ _))

theorem openBefore_succ (k : Nat) :
    openBefore tokens (k + 1) =
      openBefore tokens k + (slotAt tokens k).opened - (slotAt tokens k).closed := by
  rw [openBefore, Finset.sum_range_succ, ← openBefore]
  omega

end Tokens

/-! ### Defects -/

/-- A place at which a text may be wrong. -/
inductive Defect where
  | incomplete (k : Nat)
  /-- The connective behind the comparison `k` is none, or not the one of its group. -/
  | mixed (k : Nat)

namespace Defect

def position : Defect → Nat
  | .incomplete k => 4 * k
  | .mixed k => 4 * k + 3

def fault (tokens : List Token) : Defect → Fault
  | .incomplete k => .incomplete (slotAt tokens k).bare
  | .mixed k => .mixed (connectiveAt tokens k)

/-- A comparison is incomplete if its field or value has nothing but brackets.  A connective
is wrong if it is no word for one, or differs from the first one of its group. -/
def IsIn (tokens : List Token) : Defect → Prop
  | .incomplete k =>
      4 * k + 2 < tokens.length ∧
        ((slotAt tokens k).bare.field = [] ∨ (slotAt tokens k).bare.value = [])
  | .mixed k =>
      4 * k + 3 < tokens.length ∧
        ((∀ logic : Logic, connectiveAt tokens k ≠ logic.word) ∨
          ∃ j < k, SameGroup tokens j k ∧ (∀ i < j, ¬SameGroup tokens i j) ∧
            connectiveAt tokens j ≠ connectiveAt tokens k)

def IsFirstIn (tokens : List Token) (defect : Defect) : Prop :=
  defect.IsIn tokens ∧ ∀ other : Defect, other.IsIn tokens → defect.position ≤ other.position

end Defect

/-! ### Windows at tokens -/

section Tokens

variable {tokens : List Token}

theorem tokenAt_add (n i : Nat) : tokenAt tokens (n + i) = tokenAt (tokens.drop n) i := by
  simp [tokenAt, List.getD_eq_getElem?_getD]

def BeginsAt (tokens : List Token) (k : Nat) (w : Window) : Prop :=
  tokens.drop (4 * k) = w.tokens

theorem slotAt_of_drop {k : Nat} {slot : Slot} {rest : List Token}
    (hDrop : tokens.drop (4 * k) = slot.tokens ++ rest) : slotAt tokens k = slot := by
  have hField : tokenAt tokens (4 * k + 0) = slot.field := by
    rw [tokenAt_add, hDrop]
    rfl
  have hOperator : tokenAt tokens (4 * k + 1) = slot.operator := by
    rw [tokenAt_add, hDrop]
    rfl
  have hValue : tokenAt tokens (4 * k + 2) = slot.value := by
    rw [tokenAt_add, hDrop]
    rfl
  rw [slotAt, hOperator, hValue]
  congr 1

namespace BeginsAt

variable {k : Nat} {slot : Slot} {token : Token} {w : Window}

theorem length_eq (hBegins : BeginsAt tokens k w) :
    tokens.length + 1 = 4 * (k + w.slots.length) := by
  have hLength := congrArg List.length hBegins
  have hWindow := w.tokens_length
  rw [List.length_drop] at hLength
  have hPositive : 0 < w.slots.length := by simp [Window.slots]
  omega

theorem slotAt_single (hBegins : BeginsAt tokens k ⟨slot, []⟩) : slotAt tokens k = slot :=
  slotAt_of_drop hBegins

theorem slotAt_extend (hBegins : BeginsAt tokens k (w.extend slot token)) :
    slotAt tokens k = slot := by
  rw [BeginsAt, Window.tokens_extend] at hBegins
  exact slotAt_of_drop hBegins

theorem connectiveAt_extend (hBegins : BeginsAt tokens k (w.extend slot token)) :
    connectiveAt tokens k = token := by
  rw [BeginsAt, Window.tokens_extend] at hBegins
  rw [connectiveAt, tokenAt_add, hBegins]
  rfl

theorem next (hBegins : BeginsAt tokens k (w.extend slot token)) : BeginsAt tokens (k + 1) w := by
  rw [BeginsAt, Window.tokens_extend] at hBegins
  rw [BeginsAt, Nat.mul_add, ← List.drop_drop, hBegins]
  rfl

end BeginsAt

theorem depthAfter_eq_some_iff {k depth : Nat} {w : Window} (hBegins : BeginsAt tokens k w)
    (hDepth : openBefore tokens k = depth) :
    Window.depthAfter depth w.slots = some 0 ↔
      (∀ i, k < i → i ≤ k + w.slots.length → 0 ≤ openBefore tokens i) ∧
        openBefore tokens (k + w.slots.length) = 0 := by
  have hNext := openBefore_succ tokens k
  rw [hDepth] at hNext
  -- Each slot adds what it opens to the sum and takes off what it closes.
  induction w using Window.slotInduction generalizing k depth with
  | single slot =>
      rw [hBegins.slotAt_single] at hNext
      have hSlots : (⟨slot, []⟩ : Window).slots = [slot] := rfl
      simp only [hSlots, Window.depthAfter, Option.ite_none_left_eq_some, Option.some.injEq,
        List.length_singleton]
      constructor
      · rintro ⟨hOver, hZero⟩
        refine ⟨?_, by omega⟩
        intro i hAfter hLast
        have hIndex : i = k + 1 := by omega
        rw [hIndex]
        omega
      · rintro ⟨-, hZero⟩
        omega
  | extend slot token w ih =>
      rw [hBegins.slotAt_extend] at hNext
      have hCount : k + (w.slots.length + 1) = k + 1 + w.slots.length := by omega
      rw [Window.slots_extend, Window.depthAfter, Option.ite_none_left_eq_some,
        List.length_cons, hCount]
      constructor
      · rintro ⟨hOver, hRest⟩
        have hInner : openBefore tokens (k + 1) = (depth + slot.opened - slot.closed : Nat) := by
          omega
        have hStep := openBefore_succ tokens (k + 1)
        rw [hInner] at hStep
        obtain ⟨hLater, hZero⟩ := (ih hBegins.next hInner hStep).mp hRest
        refine ⟨?_, hZero⟩
        intro i hAfter hLast
        rcases Nat.lt_or_ge (k + 1) i with hBehind | hHere
        · exact hLater i hBehind hLast
        · have hIndex : i = k + 1 := by omega
          rw [hIndex]
          omega
      · rintro ⟨hAll, hZero⟩
        have hHere := hAll (k + 1) (by omega) (by omega)
        have hInner : openBefore tokens (k + 1) = (depth + slot.opened - slot.closed : Nat) := by
          omega
        have hStep := openBefore_succ tokens (k + 1)
        rw [hInner] at hStep
        refine ⟨by omega, (ih hBegins.next hInner hStep).mpr ⟨?_, hZero⟩⟩
        intro i hAfter hLast
        exact hAll i (by omega) hLast

theorem beginsAt_zero (w : Window) : BeginsAt w.tokens 0 w := rfl

theorem isBalanced_iff {w : Window} : w.IsBalanced ↔ BracketsBalanced w.tokens := by
  have hCount : (w.tokens.length + 1) / 4 = w.slots.length := by
    rw [w.tokens_length]
    omega
  have hDepth := @depthAfter_eq_some_iff w.tokens 0 0 w (beginsAt_zero w) rfl
  rw [Nat.zero_add] at hDepth
  rw [Window.IsBalanced, hDepth, BracketsBalanced, hCount]
  constructor
  · rintro ⟨hLater, hZero⟩
    refine ⟨?_, hZero⟩
    intro k hLast
    rcases Nat.eq_zero_or_pos k with rfl | hAfter
    · exact Int.le_refl 0
    · exact hLater k hAfter hLast
  · rintro ⟨hAll, hZero⟩
    exact ⟨fun i _ hLast => hAll i hLast, hZero⟩

/-! ### The groups that are open -/

/-- The connective `j` stands in the group at some level that is open in front of the
comparison `k`. -/
def InGroup (tokens : List Token) (k level j : Nat) : Prop :=
  j < k ∧ openBefore tokens (j + 1) = level ∧
    ∀ i, j ≤ i → i < k → level ≤ openBefore tokens (i + 1)

/-- What is known of the connective of a group is the word of all its connectives so far. -/
def IsRecorded (tokens : List Token) (k level : Nat) : Option Logic → Prop
  | none => ∀ j, ¬InGroup tokens k level j
  | some logic =>
      (∃ j, InGroup tokens k level j) ∧
        ∀ j, InGroup tokens k level j → connectiveAt tokens j = logic.word

def Stacked (tokens : List Token) (k : Nat) : Groups → Prop
  | [] => True
  | known :: outer => IsRecorded tokens k outer.length known ∧ Stacked tokens k outer

theorem not_inGroup_of_openBefore_lt {k level j : Nat} (hLevel : openBefore tokens k < level) :
    ¬InGroup tokens k level j := by
  rintro ⟨hBefore, -, hOpen⟩
  have hLast := hOpen (k - 1) (by omega) (by omega)
  have hIndex : k - 1 + 1 = k := by omega
  rw [hIndex] at hLast
  omega

theorem inGroup_succ_iff {k level j : Nat} (hLevel : (level : Int) ≤ openBefore tokens (k + 1)) :
    InGroup tokens (k + 1) level j ↔
      InGroup tokens k level j ∨ j = k ∧ openBefore tokens (k + 1) = level := by
  constructor
  · rintro ⟨hBefore, hSame, hOpen⟩
    rcases Nat.lt_or_ge j k with hEarlier | hHere
    · exact .inl ⟨hEarlier, hSame, fun i hFrom hTo => hOpen i hFrom (by omega)⟩
    · have hIndex : j = k := by omega
      subst hIndex
      exact .inr ⟨rfl, hSame⟩
  · rintro (⟨hBefore, hSame, hOpen⟩ | ⟨rfl, hSame⟩)
    · refine ⟨by omega, hSame, ?_⟩
      intro i hFrom hTo
      rcases Nat.lt_or_ge i k with hEarlier | hHere
      · exact hOpen i hFrom hEarlier
      · have hIndex : i = k := by omega
        rw [hIndex]
        exact hLevel
    · refine ⟨by omega, hSame, ?_⟩
      intro i hFrom hTo
      have hIndex : i = j := by omega
      rw [hIndex]
      exact hLevel

theorem sameGroup_iff {j k level : Nat} (hBefore : j < k)
    (hLevel : openBefore tokens (k + 1) = level) :
    SameGroup tokens j k ↔ InGroup tokens k level j := by
  rw [SameGroup, hLevel]
  constructor
  · rintro ⟨hSame, hOpen⟩
    exact ⟨hBefore, hSame, fun i hFrom hTo => hOpen i hFrom (by omega)⟩
  · rintro ⟨-, hSame, hOpen⟩
    refine ⟨hSame, ?_⟩
    intro i hFrom hTo
    rcases Nat.lt_or_ge i k with hEarlier | hHere
    · exact hOpen i hFrom hEarlier
    · have hIndex : i = k := by omega
      rw [hIndex, hLevel]

theorem Stacked.push {k : Nat} {groups : Groups} (hStacked : Stacked tokens k groups)
    (hLevel : openBefore tokens k < groups.length) (n : Nat) :
    Stacked tokens k (List.replicate n none ++ groups) := by
  induction n with
  | zero => exact hStacked
  | succ n ih =>
      -- No connective stands in front of the comparison that opens the group.
      refine ⟨?_, ih⟩
      intro j
      apply not_inGroup_of_openBefore_lt
      change openBefore tokens k < (List.replicate n none ++ groups).length
      rw [List.length_append]
      omega

theorem Stacked.pop {k : Nat} {groups : Groups} (hStacked : Stacked tokens k groups) (n : Nat) :
    Stacked tokens k (groups.drop n) := by
  induction n generalizing groups with
  | zero => exact hStacked
  | succ n ih =>
      cases groups with
      | nil => exact trivial
      | cons known outer => exact ih hStacked.2

theorem Stacked.enter {k : Nat} {groups : Groups} (hStacked : Stacked tokens k groups)
    (hLevel : (groups.length : Int) = openBefore tokens k + 1)
    (hOpen : 0 ≤ openBefore tokens (k + 1)) :
    Stacked tokens k ((slotAt tokens k).enter groups) ∧
      (((slotAt tokens k).enter groups).length : Int) = openBefore tokens (k + 1) + 1 := by
  constructor
  · exact (hStacked.push (by omega) _).pop _
  · rw [openBefore_succ] at hOpen ⊢
    rw [Slot.enter, List.length_drop, List.length_append, List.length_replicate]
    omega

theorem Stacked.outer {k : Nat} {groups : Groups} (hStacked : Stacked tokens k groups)
    (hLevel : (groups.length : Int) ≤ openBefore tokens (k + 1)) :
    Stacked tokens (k + 1) groups := by
  induction groups with
  | nil => exact trivial
  | cons known outer ih =>
      rw [List.length_cons] at hLevel
      have hSame : ∀ j,
          InGroup tokens (k + 1) outer.length j ↔ InGroup tokens k outer.length j := by
        intro j
        rw [inGroup_succ_iff (by omega), or_iff_left_of_imp]
        rintro ⟨-, hHere⟩
        omega
      refine ⟨?_, ih hStacked.2 (by omega)⟩
      cases known with
      | none => exact fun j hIn => hStacked.1 j ((hSame j).mp hIn)
      | some logic =>
          obtain ⟨⟨j, hIn⟩, hAll⟩ := hStacked.1
          exact ⟨⟨j, (hSame j).mpr hIn⟩, fun i hOther => hAll i ((hSame i).mp hOther)⟩

theorem Stacked.join {k : Nat} {known : Option Logic} {outer : Groups} {logic : Logic}
    (hStacked : Stacked tokens k (known :: outer))
    (hLevel : openBefore tokens (k + 1) = outer.length)
    (hAgree : agree? known (connectiveAt tokens k) = some logic) :
    Stacked tokens (k + 1) (some logic :: outer) := by
  obtain ⟨hWord, hKnown⟩ := agree?_eq_some_iff.mp hAgree
  refine ⟨⟨⟨k, ?_⟩, ?_⟩, hStacked.2.outer (by omega)⟩
  · exact (inGroup_succ_iff (by omega)).mpr (.inr ⟨rfl, hLevel⟩)
  · intro j hIn
    rcases (inGroup_succ_iff (by omega)).mp hIn with hEarlier | ⟨rfl, -⟩
    · rcases hKnown with rfl | rfl
      · exact absurd hEarlier (hStacked.1 j)
      · exact hStacked.1.2 j hEarlier
    · exact hWord

theorem SameGroup.trans {i j k : Nat} (hLeft : SameGroup tokens i j)
    (hRight : SameGroup tokens j k) : SameGroup tokens i k := by
  obtain ⟨hFirst, hOpen⟩ := hLeft
  obtain ⟨hSecond, hLater⟩ := hRight
  refine ⟨hFirst.trans hSecond, ?_⟩
  intro h hFrom hTo
  rcases Nat.le_total h j with hEarlier | hBehind
  · rw [← hSecond]
    exact hOpen h hFrom hEarlier
  · exact hLater h hBehind hTo

theorem exists_first_sameGroup {j k : Nat} (hBefore : j < k) (hSame : SameGroup tokens j k) :
    ∃ i < k, SameGroup tokens i k ∧ ∀ h < i, ¬SameGroup tokens h i := by
  induction j using Nat.strong_induction_on with
  | _ j ih =>
      by_cases hFirst : ∃ h < j, SameGroup tokens h j
      · obtain ⟨h, hEarlier, hGroup⟩ := hFirst
        exact ih h hEarlier (by omega) (hGroup.trans hSame)
      · exact ⟨j, hBefore, hSame, fun h hEarlier hGroup => hFirst ⟨h, hEarlier, hGroup⟩⟩

/-- A connective does not agree with what is kept exactly when it is a defect. -/
theorem agree?_eq_none_iff {k : Nat} {known : Option Logic} {outer : Groups}
    (hStacked : Stacked tokens k (known :: outer))
    (hLevel : openBefore tokens (k + 1) = outer.length)
    (hIndex : 4 * k + 3 < tokens.length) :
    agree? known (connectiveAt tokens k) = none ↔ (Defect.mixed k).IsIn tokens := by
  constructor
  · intro hNone
    refine ⟨hIndex, ?_⟩
    by_cases hWord : ∃ logic : Logic, connectiveAt tokens k = logic.word
    · right
      obtain ⟨found, hFound⟩ := hWord
      have hOther : ¬(known = none ∨ known = some found) := by
        intro hKnown
        rw [agree?_eq_some_iff.mpr ⟨hFound, hKnown⟩] at hNone
        cases hNone
      cases known with
      | none => exact absurd (.inl rfl) hOther
      | some logic =>
          obtain ⟨⟨j, hIn⟩, hAll⟩ := hStacked.1
          have hSame := (sameGroup_iff hIn.1 hLevel).mpr hIn
          obtain ⟨i, hBefore, hGroup, hFirst⟩ := exists_first_sameGroup hIn.1 hSame
          refine ⟨i, hBefore, hGroup, hFirst, ?_⟩
          rw [hAll i ((sameGroup_iff hBefore hLevel).mp hGroup), hFound]
          intro hWords
          have hLogic := Logic.ofWord?_eq_some_iff.mpr hWords
          rw [Logic.ofWord?_eq_some_iff.mpr rfl] at hLogic
          exact hOther (.inr hLogic)
    · left
      intro logic hLogic
      exact hWord ⟨logic, hLogic⟩
  · rintro ⟨-, hWrong⟩
    rw [Option.eq_none_iff_forall_ne_some]
    intro logic hAgree
    obtain ⟨hWord, hKnown⟩ := agree?_eq_some_iff.mp hAgree
    rcases hWrong with hNoWord | ⟨j, hBefore, hSame, -, hDiffers⟩
    · exact hNoWord logic hWord
    · have hIn := (sameGroup_iff hBefore hLevel).mp hSame
      rcases hKnown with rfl | rfl
      · exact hStacked.1 j hIn
      · exact hDiffers ((hStacked.1.2 j hIn).trans hWord.symm)

/-! ### The first defect -/

theorem Defect.eq_of_position {defect : Defect} {k : Nat} (hFrom : 4 * k ≤ defect.position)
    (hTo : defect.position < 4 * (k + 1)) : defect = .incomplete k ∨ defect = .mixed k := by
  cases defect with
  | incomplete j =>
      simp only [position] at hFrom hTo
      left
      congr 1
      omega
  | mixed j =>
      simp only [position] at hFrom hTo
      right
      congr 1
      omega

theorem Defect.IsIn.position_lt {defect : Defect} (hIn : defect.IsIn tokens) :
    defect.position < tokens.length := by
  cases defect with
  | incomplete k =>
      have hIndex := hIn.1
      simp only [position]
      omega
  | mixed k => exact hIn.1

theorem tokenAt_eq_getElem {i : Nat} (hIndex : i < tokens.length) :
    tokenAt tokens i = tokens[i] := by
  rw [tokenAt, List.getD_eq_getElem?_getD, List.getElem?_eq_getElem hIndex, Option.getD_some]

theorem tokenAt_mem {i : Nat} (hIndex : i < tokens.length) : tokenAt tokens i ∈ tokens := by
  rw [tokenAt_eq_getElem hIndex]
  exact List.getElem_mem hIndex

theorem isIncomplete_iff {k : Nat} (hTokens : ∀ token ∈ tokens, token ≠ [])
    (hIndex : 4 * k + 2 < tokens.length) :
    (slotAt tokens k).bare.IsIncomplete ↔ (Defect.incomplete k).IsIn tokens := by
  have hOperator : (slotAt tokens k).bare.operator ≠ [] :=
    hTokens _ (tokenAt_mem (by omega))
  constructor
  · rintro (hField | hNone | hValue)
    · exact ⟨hIndex, .inl hField⟩
    · exact absurd hNone hOperator
    · exact ⟨hIndex, .inr hValue⟩
  · rintro ⟨-, hField | hValue⟩
    · exact .inl hField
    · exact .inr (.inr hValue)

/-- What is found on passing over a window is the first defect from its first token on. -/
def FindsFirst (tokens : List Token) (k : Nat) (found : Except Fault Groups) : Prop :=
  match found with
  | .ok _ => ∀ other : Defect, other.IsIn tokens → other.position < 4 * k
  | .error fault =>
      ∃ defect : Defect, defect.IsIn tokens ∧ fault = defect.fault tokens ∧
        ∀ other : Defect, other.IsIn tokens → 4 * k ≤ other.position →
          defect.position ≤ other.position

theorem FindsFirst.before {k : Nat} {found : Except Fault Groups}
    (hFound : FindsFirst tokens (k + 1) found) (hSlot : ¬(Defect.incomplete k).IsIn tokens)
    (hLink : ¬(Defect.mixed k).IsIn tokens) : FindsFirst tokens k found := by
  have hLater : ∀ other : Defect, other.IsIn tokens → 4 * k ≤ other.position →
      4 * (k + 1) ≤ other.position := by
    intro other hIn hFrom
    by_contra hEarly
    rcases Defect.eq_of_position hFrom (by omega) with rfl | rfl
    · exact hSlot hIn
    · exact hLink hIn
  cases found with
  | ok groups =>
      intro other hIn
      by_contra hFrom
      have hBehind := hLater other hIn (by omega)
      have hBefore := hFound other hIn
      omega
  | error fault =>
      obtain ⟨defect, hDefect, hFault, hFirst⟩ := hFound
      exact ⟨defect, hDefect, hFault, fun other hIn hFrom =>
        hFirst other hIn (hLater other hIn hFrom)⟩

theorem findsFirst_incomplete {k : Nat} (hSlot : (Defect.incomplete k).IsIn tokens) :
    FindsFirst tokens k (.error (.incomplete (slotAt tokens k).bare)) :=
  ⟨.incomplete k, hSlot, rfl, fun _ _ hFrom => hFrom⟩

theorem findsFirst_mixed {k : Nat} (hSlot : ¬(Defect.incomplete k).IsIn tokens)
    (hLink : (Defect.mixed k).IsIn tokens) :
    FindsFirst tokens k (.error (.mixed (connectiveAt tokens k))) := by
  refine ⟨.mixed k, hLink, rfl, ?_⟩
  intro other hIn hFrom
  by_contra hEarly
  have hTo : other.position < 4 * k + 3 := Nat.lt_of_not_le hEarly
  rcases Defect.eq_of_position hFrom (by omega) with rfl | rfl
  · exact hSlot hIn
  · exact hEarly (Nat.le_refl _)

theorem findsFirst_scan {k : Nat} {w : Window} {groups : Groups}
    (hTokens : ∀ token ∈ tokens, token ≠ []) (hBalanced : BracketsBalanced tokens)
    (hBegins : BeginsAt tokens k w) (hStacked : Stacked tokens k groups)
    (hLevel : (groups.length : Int) = openBefore tokens k + 1) :
    FindsFirst tokens k (w.scan groups) := by
  have hLength := hBegins.length_eq
  induction w using Window.slotInduction generalizing k groups with
  | single slot =>
      have hCount : (⟨slot, []⟩ : Window).slots.length = 1 := rfl
      have hSlot := @isIncomplete_iff tokens k hTokens (by omega)
      rw [Window.scan_single, ← hBegins.slotAt_single, Slot.scan]
      by_cases hIncomplete : (slotAt tokens k).bare.IsIncomplete
      · rw [if_pos hIncomplete]
        exact findsFirst_incomplete (hSlot.mp hIncomplete)
      · rw [if_neg hIncomplete]
        intro other hIn
        by_contra hFrom
        have hTo := hIn.position_lt
        rcases Defect.eq_of_position (Nat.le_of_not_lt hFrom) (by omega) with rfl | rfl
        · exact hIncomplete (hSlot.mpr hIn)
        · have hIndex := hIn.1
          omega
  | extend slot token w ih =>
      have hCount : (w.extend slot token).slots.length = w.slots.length + 1 := rfl
      have hRest : 0 < w.slots.length := by simp [Window.slots]
      have hSlot := @isIncomplete_iff tokens k hTokens (by omega)
      rw [Window.scan_extend, ← hBegins.slotAt_extend, ← hBegins.connectiveAt_extend, Slot.scan]
      by_cases hIncomplete : (slotAt tokens k).bare.IsIncomplete
      · rw [if_pos hIncomplete]
        exact findsFirst_incomplete (hSlot.mp hIncomplete)
      · have hComplete := mt hSlot.mpr hIncomplete
        have hOpen := hBalanced.1 (k + 1) (by omega)
        obtain ⟨hInner, hHeight⟩ := hStacked.enter hLevel hOpen
        rw [if_neg hIncomplete]
        cases hEnter : (slotAt tokens k).enter groups with
        | nil =>
            rw [hEnter, List.length_nil] at hHeight
            omega
        | cons known outer =>
            rw [hEnter] at hInner hHeight
            rw [List.length_cons] at hHeight
            have hOuter : openBefore tokens (k + 1) = outer.length := by omega
            have hAgree := agree?_eq_none_iff hInner hOuter (by omega)
            simp only [Except.bind]
            cases hJoin : agree? known (connectiveAt tokens k) with
            | none => exact findsFirst_mixed hComplete (hAgree.mp hJoin)
            | some logic =>
                have hLink : ¬(Defect.mixed k).IsIn tokens := by
                  intro hIn
                  rw [hAgree.mpr hIn] at hJoin
                  cases hJoin
                have hNext := ih hBegins.next (hInner.join hOuter hJoin)
                  (by rw [List.length_cons]; omega) hBegins.next.length_eq
                exact hNext.before hComplete hLink

/-! ### Texts -/

theorem firstEmpty?_eq_some {start i : Nat} (hIndex : i < tokens.length)
    (hEmpty : tokenAt tokens i = []) (hFirst : ∀ j < i, tokenAt tokens j ≠ []) :
    firstEmpty? start tokens = some (start + i) := by
  have hTokens : tokens.take i ++ [] :: tokens.drop (i + 1) = tokens := by
    rw [← hEmpty, tokenAt_eq_getElem hIndex, ← List.drop_eq_getElem_cons hIndex,
      List.take_append_drop]
  have hBefore : ∀ token ∈ tokens.take i, token ≠ [] := by
    intro token hToken
    obtain ⟨j, hBound, hSame⟩ := List.mem_take_iff_getElem.mp hToken
    rw [← hSame, ← tokenAt_eq_getElem]
    exact hFirst j (by omega)
  have hFound := firstEmpty?_append start hBefore (tokens.drop (i + 1))
  rw [hTokens, List.length_take_of_le (Nat.le_of_lt hIndex)] at hFound
  exact hFound

theorem ofWindow_blames_first_defect {w : Window} (hTokens : ∀ token ∈ w.tokens, token ≠ [])
    (hBalanced : BracketsBalanced w.tokens) :
    match ofWindow w with
    | .ok _ => ∀ defect : Defect, ¬defect.IsIn w.tokens
    | .error error =>
        ∃ defect : Defect, defect.IsFirstIn w.tokens ∧
          (defect.fault w.tokens).IsCause error.rootCause := by
  have hAgrees := agreesOnFault_ofWindow (isBalanced_iff.mpr hBalanced)
  have hStacked : Stacked w.tokens 0 [none] :=
    ⟨fun j hIn => absurd hIn.1 (Nat.not_lt_zero j), trivial⟩
  have hFinds := findsFirst_scan hTokens hBalanced (beginsAt_zero w) hStacked rfl
  cases hRead : ofWindow w with
  | ok tree =>
      rw [hRead] at hAgrees
      obtain ⟨groups, hScan⟩ := hAgrees
      rw [hScan] at hFinds
      intro defect hIn
      exact absurd (hFinds defect hIn) (Nat.not_lt_zero _)
  | error error =>
      rw [hRead] at hAgrees
      obtain ⟨fault, hScan, hCause⟩ := hAgrees
      rw [hScan] at hFinds
      obtain ⟨defect, hIn, rfl, hFirst⟩ := hFinds
      exact ⟨defect, ⟨hIn, fun other hOther => hFirst other hOther (Nat.zero_le _)⟩, hCause⟩

end Tokens

theorem IsLevel.bracketsBalanced {tokens : List Token} {tree : Filter}
    (hLevel : IsLevel tokens tree) : BracketsBalanced tokens := by
  obtain ⟨logic, trees, hRun, -⟩ := hLevel
  obtain ⟨w, rfl, hBalanced, -⟩ := exists_window_of_isRun hRun
  exact isBalanced_iff.mp hBalanced

/-- The error of a text that is not read.  An empty token is told of before the number of
tokens, and that before the brackets.  Where the brackets match, reading fails exactly if
some comparison is incomplete or some connective is wrong, and the root cause is the first
such defect. -/
theorem parse_blames_first_defect (input : String) (hInput : input ≠ "") :
    let tokens := Text.split delimiter input.toList
    (∀ i < tokens.length, tokenAt tokens i = [] → (∀ j < i, tokenAt tokens j ≠ []) →
      parse input = .error (.emptyToken i)) ∧
    ((∀ token ∈ tokens, token ≠ []) →
      (tokens.length % 4 ≠ 3 → parse input = .error (.tokenCount input tokens.length)) ∧
      (tokens.length % 4 = 3 → ¬BracketsBalanced tokens →
        ∃ error, parse input = .error error) ∧
      (tokens.length % 4 = 3 → BracketsBalanced tokens →
        ((∃ error, parse input = .error error) ↔ ∃ defect : Defect, defect.IsIn tokens) ∧
        ∀ error, parse input = .error error →
          (∀ span, error.rootCause ≠ .unbalancedBrackets span) ∧
          (∀ span count, error.rootCause ≠ .tokenCount span count) ∧
          ∃ defect : Defect, defect.IsFirstIn tokens ∧
            (defect.fault tokens).IsCause error.rootCause)) := by
  intro tokens
  constructor
  · intro i hIndex hEmpty hFirst
    have hPosition := @firstEmpty?_eq_some tokens 0 i hIndex hEmpty hFirst
    rw [Nat.zero_add] at hPosition
    have hTokenize : tokenize input = .error (.emptyToken i) := by
      rw [tokenize, hPosition]
    rw [parse, if_neg hInput, hTokenize]
  · intro hTokens
    have hParse := parse_of_tokens hInput hTokens
    refine ⟨?_, ?_, ?_⟩
    · intro hCount
      have hNone : Window.ofTokens? tokens = none := by
        rw [Option.eq_none_iff_forall_ne_some]
        intro w hWindow
        exact hCount (exists_window_iff.mp ⟨w, hWindow⟩)
      have hSpan : spanText tokens = input := by
        rw [spanText, Text.join_split, String.ofList_toList]
      rw [hParse, ofTokens, hNone, hSpan]
    · intro _ hUnbalanced
      cases hRead : ofTokens tokens with
      | error error =>
          rw [hRead] at hParse
          exact ⟨error, hParse⟩
      | ok tree => exact absurd (ofTokens_eq_ok_iff.mp hRead).bracketsBalanced hUnbalanced
    · intro hCount hBalanced
      obtain ⟨w, hWindow⟩ := exists_window_iff.mpr hCount
      have hSame := Window.tokens_of_ofTokens? hWindow
      rw [← hSame] at hTokens hBalanced
      have hBlames := ofWindow_blames_first_defect hTokens hBalanced
      rw [hSame] at hBlames
      rw [ofTokens, hWindow] at hParse
      cases hRead : ofWindow w with
      | ok tree =>
          simp only [hRead] at hParse hBlames
          rw [hParse]
          constructor
          · constructor
            · rintro ⟨error, hError⟩
              cases hError
            · rintro ⟨defect, hIn⟩
              exact absurd hIn (hBlames defect)
          · intro error hError
            cases hError
      | error error =>
          simp only [hRead] at hParse hBlames
          obtain ⟨defect, hFirst, hCause⟩ := hBlames
          rw [hParse]
          constructor
          · constructor
            · intro _
              exact ⟨defect, hFirst.1⟩
            · intro _
              exact ⟨error, rfl⟩
          · intro other hOther
            cases hOther
            exact ⟨hCause.ne_unbalancedBrackets, hCause.ne_tokenCount, defect, hFirst, hCause⟩

/-- An empty token, a number of tokens, an open bracket, and a field of nothing but a bracket
inside two groups. -/
theorem parse_blames_first_defect_nested :
    let input := "a~eq~1~and~(b~eq~2~or~(~eq~3))~or~d~eq~4"
    let tokens := Text.split delimiter input.toList
    parse "a~~b" = .error (.emptyToken 1) ∧
      parse "a~eq" = .error (.tokenCount "a~eq" 2) ∧
      (∃ error, parse "(a~eq~1" = .error error) ∧
      ∃ error, parse input = .error error ∧
        ∃ defect : Defect, defect.IsFirstIn tokens ∧
          (defect.fault tokens).IsCause error.rootCause := by
  intro input tokens
  have hEmpty := (parse_blames_first_defect "a~~b" (by decide)).1
  have hCount := (parse_blames_first_defect "a~eq" (by decide)).2
  have hOpen := (parse_blames_first_defect "(a~eq~1" (by decide)).2
  have hNested := (parse_blames_first_defect input (by decide)).2
  refine ⟨?_, ?_, ?_, ?_⟩
  · exact hEmpty 1 (by decide) (by decide) (by decide)
  · exact (hCount (by decide)).1 (by decide)
  · exact (hOpen (by decide)).2.1 (by decide) (by decide)
  · obtain ⟨hFails, hBlames⟩ := (hNested (by decide)).2.2 (by decide) (by decide)
    obtain ⟨error, hError⟩ := hFails.mpr ⟨.incomplete 2, by decide, .inl (by decide)⟩
    exact ⟨error, hError, (hBlames error hError).2.2⟩

end Filter
end RecordFilter
