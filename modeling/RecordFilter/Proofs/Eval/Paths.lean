/-
Paths put together.

To follow one path and then another from the value it leads to is to follow the joined path
(`follow_append`).  A missing key and a null end the joined path as they end its front.  An
error names the whole path that was asked for, and what cannot be read from what stays the
same.
-/
import RecordFilter.Proofs.Eval.Faults

namespace RecordFilter

open Json (Value)

def EvalError.onPath (path : String) : EvalError → EvalError
  | .unresolvedField _ segment kind => .unresolvedField path segment kind
  | error => error

namespace Eval

theorem follow_append (path : String) (front rest : List String) (value : Value) :
    follow path (front ++ rest) value =
      match follow path front value with
      | .ok none => .ok none
      | .ok (some next) => follow path rest next
      | .error error => .error error := by
  induction front generalizing value with
  | nil =>
      -- The end of the front makes null an absent value, and behind null the rest finds none.
      rw [List.nil_append, follow]
      cases value with
      | null => exact follow_null path rest
      | bool _ | integer _ | float _ | text _ | array _ | object _ => rfl
  | cons segment more ih =>
      cases value with
      | object entries =>
          simp only [List.cons_append, follow]
          cases Json.lookup? segment entries with
          | none => rfl
          | some next => exact ih next
      | null | bool _ | integer _ | float _ | text _ | array _ => rfl

/-- The whole path has no part in where its segments lead; only an error names it. -/
theorem follow_onPath (path other : String) (more : List String) (value : Value) :
    follow path more value = (follow other more value).mapError (EvalError.onPath path) := by
  induction more generalizing value with
  | nil => rfl
  | cons segment more ih =>
      cases value with
      | object entries =>
          simp only [follow]
          cases Json.lookup? segment entries with
          | none => rfl
          | some next => exact ih next
      | null | bool _ | integer _ | float _ | text _ | array _ => rfl

theorem follow_segments (path other : String) (record : Value) :
    follow path (segments other) record =
      (resolve record other).mapError (EvalError.onPath path) :=
  follow_onPath path other (segments other) record

/-- The value of a field whose path is joined by a dot is the value of the rest of the path in
the value that its front leads to.  There is none where the front leads to none, and an error
on either part of the path is the error on the whole one, with its cause and under the name
of the whole path. -/
theorem resolve_joined (record : Value) (front rest : String) :
    let path := front ++ "." ++ rest
    resolve record path =
      (match resolve record front with
      | .ok none => .ok none
      | .ok (some value) => (resolve value rest).mapError (EvalError.onPath path)
      | .error error => .error (error.onPath path)) ∧
    ∀ error, resolve record path = .error error →
      ∃ segment kind, error = .unresolvedField path segment kind := by
  intro path
  constructor
  · have hFront := follow_segments path front record
    rw [resolve, segments_append, follow_append, hFront]
    cases resolve record front with
    | error error => rfl
    | ok found =>
        cases found with
        | none => rfl
        | some value => exact follow_segments path rest value
  · intro error hError
    obtain ⟨segment, stop, -, hCause⟩ := resolve_eq_error_iff.mp hError
    exact ⟨segment, stop.kind, hCause⟩

/-- The front leads to an object and the rest fails at a number in it, the rest is one empty
key, and the front ends at a null. -/
theorem resolve_joined_nested :
    let five : Value := .integer ⟨5, by decide, by decide⟩
    let address : Value := .object [("", .text "Paris"), ("zip", five)]
    let record : Value := .object [("owner", .object [("address", address), ("tag", .null)])]
    let path := "owner.address" ++ "." ++ "zip.code.x"
    (∃ error, resolve record path = .error error ∧
      ∃ segment kind, error = .unresolvedField path segment kind) ∧
    resolve record path = .error (.unresolvedField path "code" "a number") ∧
    resolve record ("owner.address" ++ "." ++ "") = .ok (some (.text "Paris")) ∧
    resolve record ("owner.tag" ++ "." ++ ".first") = .ok none := by
  intro five address record path
  have hAddress : resolve record "owner.address" = .ok (some address) := by cbv
  have hTag : resolve record "owner.tag" = .ok none := by cbv
  have hCode : resolve address "zip.code.x" =
      .error (.unresolvedField "zip.code.x" "code" "a number") := by cbv
  have hCity : resolve address "" = .ok (some (.text "Paris")) := by cbv
  obtain ⟨hPath, hNames⟩ := resolve_joined record "owner.address" "zip.code.x"
  rw [hAddress] at hPath
  simp only [hCode] at hPath
  refine ⟨⟨_, hPath, hNames _ hPath⟩, hPath, ?_, ?_⟩
  · rw [(resolve_joined record "owner.address" "").1, hAddress]
    simp only [hCity]
    rfl
  · rw [(resolve_joined record "owner.tag" ".first").1, hTag]

end Eval
end RecordFilter
