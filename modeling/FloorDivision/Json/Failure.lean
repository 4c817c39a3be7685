import FloorDivision.Failure
import FloorDivision.Json.Decoder
import FloorDivision.Json.Document

/-!
# Failures as documents

A failure is written as its class with the message of a broken promise or with the exception.

* `Failure.toJson`, `Failure.ofJson`.
-/

namespace FloorDivision

open Json

def ExceptionKind.toDocument (kind : ExceptionKind) : Document := .text kind.name

def ExceptionKind.reader : Reader ExceptionKind :=
  .choice (ExceptionKind.all.map fun kind => (kind.name, .bare kind))

namespace Raised

def toDocument (raised : Raised) : Document :=
  .object [("exc_type", raised.kind.toDocument),
    ("arg", (raised.message.map .text).getD .null)]

/-- The kind cannot be left out of an object, the message can. -/
def form : RecordForm Raised where
  title := "struct SimpleException"
  fields := [
    ⟨"exc_type", fun raised => ({ raised with kind := · }) <$> ExceptionKind.reader, true⟩,
    ⟨"arg", fun raised => ({ raised with message := · }) <$> Reader.optional .text, false⟩]
  mayEndEarly := false

def reader : Reader Raised := .record form ⟨.baseException, none⟩

end Raised

namespace Failure

def toDocument : Failure → Document
  | .internal message => .object [("Internal", .text message)]
  | .raised exception => .object [("Exc", exception.toDocument)]
  | .uncatchable exception => .object [("UncatchableExc", exception.toDocument)]

def reader : Reader Failure := .choice [
  ("Internal", .value (.internal <$> Reader.text)),
  ("Exc", .value (.raised <$> Raised.reader)),
  ("UncatchableExc", .value (.uncatchable <$> Raised.reader))]

def toJson (failure : Failure) : String := failure.toDocument.compact

def ofJson (text : String) : Except ReadError Failure := decode reader text

end Failure

end FloorDivision
