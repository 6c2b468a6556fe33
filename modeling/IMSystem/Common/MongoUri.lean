import IMSystem.Lib.Bytes
import IMSystem.Lib.Splitting

/-!
# The logged database address (`common/src/db/mongo_pool.cpp`)

`MongoConnectionPool::Initialize` logs its URI through `RedactMongoUriForLog`. The
function looks for the first `@` of the whole URI and for the first `:` behind the
scheme, and overwrites what is between them.

`redact_conceals` says that its result does not depend on the password.
-/

namespace IMSystem.MongoUri

open Lib

/-- `RedactMongoUriForLog`. `uri.find(c)` starts at offset 0. -/
def redactMongoUriForLog (uri : Bytes) : Except OutOfRange Bytes :=
  let pre := str "mongodb://"
  if uri.length < pre.length ∨ uri.take pre.length ≠ pre then .ok (str "<uri>")
  else
    let atSign := find uri [chr '@'] 0
    let authStart := pre.length
    let colon := find uri [chr ':'] authStart
    match atSign, colon with
    | some atSign, some colon =>
      if colon < atSign then replace uri (colon + 1) (atSign - colon - 1) (str "***")
      else .ok uri
    | _, _ => .ok uri

/-- A URI with a user name and a password, as `Initialize` may receive it. -/
def mongoUri (user password remainder : Bytes) : Bytes :=
  str "mongodb://" ++ user ++ [chr ':'] ++ password ++ [chr '@'] ++ remainder

/-- The first `:` behind the scheme ends the user name. -/
theorem find_colon {u : Bytes} (hcolon : chr ':' ∉ u) (p r : Bytes) :
    find (mongoUri u p r) [chr ':'] (str "mongodb://").length =
      some ((str "mongodb://").length + u.length) := by
  have hfirst : First [chr ':'] u (p ++ [chr '@'] ++ r) := first_singleton hcolon
  have := hfirst.find_eq (str "mongodb://")
  unfold mongoUri
  simpa only [List.append_assoc] using this

/-- The first `@` of the URI ends the password. -/
theorem find_at {u p : Bytes} (hu : chr '@' ∉ u) (hp : chr '@' ∉ p) (r : Bytes) :
    find (mongoUri u p r) [chr '@'] 0 =
      some (str "mongodb://" ++ u ++ [chr ':'] ++ p).length := by
  have hfresh : chr '@' ∉ str "mongodb://" ++ u ++ [chr ':'] ++ p := by
    simp only [List.mem_append, List.mem_singleton, not_or]
    exact ⟨⟨⟨by decide, hu⟩, by decide⟩, hp⟩
  have hfirst : First [chr '@'] _ r := first_singleton hfresh
  have := hfirst.find_eq []
  unfold mongoUri
  simpa only [List.nil_append, List.length_nil, Nat.zero_add] using this

theorem redact_mongoUri {u p : Bytes} (hcolon : chr ':' ∉ u) (hu : chr '@' ∉ u)
    (hp : chr '@' ∉ p) (r : Bytes) :
    redactMongoUriForLog (mongoUri u p r) = .ok (mongoUri u (str "***") r) := by
  have hscheme : ¬ ((mongoUri u p r).length < (str "mongodb://").length ∨
      (mongoUri u p r).take (str "mongodb://").length ≠ str "mongodb://") := by
    unfold mongoUri
    simp only [List.append_assoc, List.length_append, List.take_left, ne_eq, not_true,
      or_false, Nat.not_lt]
    exact Nat.le_add_right _ _
  have hlt : (str "mongodb://").length + u.length <
      (str "mongodb://" ++ u ++ [chr ':'] ++ p).length := by
    simp only [List.length_append, List.length_singleton]
    omega
  -- The bytes to be replaced are those of the password.
  have hcount : (str "mongodb://" ++ u ++ [chr ':'] ++ p).length -
      ((str "mongodb://").length + u.length) - 1 = p.length := by
    simp only [List.length_append, List.length_singleton]
    omega
  have hstart : (str "mongodb://").length + u.length + 1 =
      (str "mongodb://" ++ u ++ [chr ':']).length := by
    simp only [List.length_append, List.length_singleton]
  have hreplace := replace_append (str "mongodb://" ++ u ++ [chr ':']) p ([chr '@'] ++ r)
    (str "***")
  unfold redactMongoUriForLog
  simp only [hscheme, if_false, find_at hu hp, find_colon hcolon, hlt, if_true, hcount, hstart]
  unfold mongoUri
  simpa only [List.append_assoc] using hreplace

/-- What is logged does not depend on the password, and nothing of a URI of another
scheme is logged. -/
theorem redact_conceals :
    (∀ u p₁ p₂ r : Bytes, chr ':' ∉ u → chr '@' ∉ u → chr '@' ∉ p₁ → chr '@' ∉ p₂ →
      redactMongoUriForLog (mongoUri u p₁ r) = redactMongoUriForLog (mongoUri u p₂ r) ∧
      redactMongoUriForLog (mongoUri u p₁ r) =
        .ok (str "mongodb://" ++ u ++ str ":***@" ++ r)) ∧
    ∀ uri : Bytes, ¬ str "mongodb://" <+: uri → redactMongoUriForLog uri = .ok (str "<uri>") := by
  constructor
  · intro u p₁ p₂ r hcolon hu hp₁ hp₂
    have hmark : mongoUri u (str "***") r = str "mongodb://" ++ u ++ str ":***@" ++ r := by
      have hstars : str ":***@" = [chr ':'] ++ (str "***" ++ [chr '@']) := by decide
      rw [hstars]
      simp only [mongoUri, List.append_assoc]
    rw [redact_mongoUri hcolon hu hp₁, redact_mongoUri hcolon hu hp₂, ← hmark]
    exact ⟨rfl, rfl⟩
  · intro uri hother
    unfold redactMongoUriForLog
    rw [if_pos]
    right
    intro hsame
    exact hother (hsame ▸ List.take_prefix _ _)

theorem redact_conceals_secret :
    (redactMongoUriForLog (mongoUri (str "im") (str "s3:cret") (str "db:27017/im?x=a@b")) =
        redactMongoUriForLog (mongoUri (str "im") [] (str "db:27017/im?x=a@b")) ∧
      redactMongoUriForLog (mongoUri (str "im") (str "s3:cret") (str "db:27017/im?x=a@b")) =
        .ok (str "mongodb://" ++ str "im" ++ str ":***@" ++ str "db:27017/im?x=a@b")) ∧
    redactMongoUriForLog (str "postgres://im:pw@db") = .ok (str "<uri>") :=
  ⟨redact_conceals.1 _ _ _ _ (by decide) (by decide) (by decide) (by decide),
    redact_conceals.2 _ (by decide)⟩

end IMSystem.MongoUri
