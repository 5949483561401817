import Mathlib.Data.List.Forall2
import ThalosBackend.Js.Value

/-!
# Errors a request ends with

An `HttpException` carries the status of the answer and the text or body it was built from. Any
other error that leaves a handler is answered with status 500 and says nothing of itself.
-/

set_option autoImplicit false

namespace ThalosBackend

open Js (Value)

structure HttpException where
  status : ℕ
  body : Value
  deriving DecidableEq

namespace HttpException

/-- `new BadRequestException(body)`. -/
def badRequestBody (body : Value) : HttpException := ⟨400, body⟩

def badRequest (message : String) : HttpException := ⟨400, .string message⟩
def unauthorized (message : String) : HttpException := ⟨401, .string message⟩
def forbidden (message : String) : HttpException := ⟨403, .string message⟩
def notFound (message : String) : HttpException := ⟨404, .string message⟩
def conflict (message : String) : HttpException := ⟨409, .string message⟩
def payloadTooLarge (message : String) : HttpException := ⟨413, .string message⟩
def unsupportedMediaType (message : String) : HttpException := ⟨415, .string message⟩
def internalServerError (message : String) : HttpException := ⟨500, .string message⟩
def serviceUnavailable (message : String) : HttpException := ⟨503, .string message⟩

/-- An error of another class. -/
def internal : HttpException := ⟨500, .undefined⟩

end HttpException

/-- A computation that goes on after a step returns only if the step does. -/
theorem bind_eq_ok {ε α β : Type} {x : Except ε α} {f : α → Except ε β} {b : β} :
    x >>= f = .ok b ↔ ∃ a, x = .ok a ∧ f a = .ok b := by
  constructor
  · intro h
    cases x with
    | error e => cases h
    | ok a => exact ⟨a, rfl, h⟩
  · rintro ⟨a, rfl, h⟩
    exact h

/-- A list of computations that all succeed. -/
theorem forall₂_of_mapM_eq_ok {ε α β : Type} {f : α → Except ε β} {xs : List α} {ys : List β}
    (h : xs.mapM f = .ok ys) : List.Forall₂ (fun x y => f x = .ok y) xs ys := by
  induction xs generalizing ys with
  | nil =>
      cases h
      exact .nil
  | cons x xs ih =>
      rw [List.mapM_cons] at h
      obtain ⟨y, hy, h⟩ := bind_eq_ok.mp h
      obtain ⟨rest, hrest, h⟩ := bind_eq_ok.mp h
      cases h
      exact .cons hy (ih hrest)

/-- A list of checks that each succeed. -/
theorem mapM_of_forall_ok {ε α β : Type} {check : α → Except ε β} {g : α → β} {xs : List α}
    (h : ∀ x ∈ xs, check x = .ok (g x)) : xs.mapM check = .ok (xs.map g) := by
  induction xs with
  | nil => rfl
  | cons x rest ih =>
      rw [List.forall_mem_cons] at h
      rw [List.mapM_cons, h.1, ih h.2]
      rfl

/-- A list of computations that fails does so with the failure of one of them. -/
theorem exists_of_mapM_eq_error {ε α β : Type} {f : α → Except ε β} {xs : List α} {e : ε}
    (h : xs.mapM f = .error e) : ∃ x ∈ xs, f x = .error e := by
  induction xs with
  | nil => cases h
  | cons x xs ih =>
      rw [List.mapM_cons] at h
      cases hx : f x with
      | error e' =>
          rw [hx] at h
          cases h
          exact ⟨x, List.mem_cons_self, hx⟩
      | ok y =>
          rw [hx] at h
          cases hrest : xs.mapM f with
          | error e' =>
              rw [hrest] at h
              cases h
              obtain ⟨x', hmem, hx'⟩ := ih hrest
              exact ⟨x', List.mem_cons_of_mem _ hmem, hx'⟩
          | ok ys =>
              rw [hrest] at h
              cases h

end ThalosBackend
