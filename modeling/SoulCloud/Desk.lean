import SoulCloud.Answers
import SoulCloud.Service

/-!
# One request after the other

The purpose of the request half of the device, without tasks, slots, buffers and fragments:
requests arrive, wait, are served one at a time and may be answered. The two tasks are compared
with it in `Server.lean`.

- `desk`: the system, whose requests wait in order of arrival.
- `Desk.Step`: its steps by label.
- `Desk.served_all`: what it serves is a fold over the requests.
- `Desk.answered_reach`: an answer belongs to the request of its number.
-/

namespace SoulCloud

open Bytes

variable {cfg : Config} {σ : Type}

/-- The purpose of the request half, without tasks, slots, buffers and fragments. -/
structure Desk (σ : Type) where
  /-- The requests that have arrived and are not yet served, the oldest first. -/
  waiting : List Message
  app : σ
  /-- The requests served so far, with the bodies of their answers. -/
  served : List (Message × Bytes)
  /-- The answers given to esp-mqtt, with the number of the request. -/
  sent : List (Nat × Published)

inductive DeskAct (σ : Type) where
  /-- A request has arrived completely. -/
  | arrive (m : Message)
  /-- The request that has waited longest is served. -/
  | serve
  /-- The request served last is answered. -/
  | answer
  /-- Something else changes what the handlers work on. -/
  | outside (app : σ)

namespace DeskAct

def IsOutside : DeskAct σ → Prop
  | .outside _ => True
  | _ => False

end DeskAct

/-- The answer to message `m`: on the topic it asks for, with its correlation data. -/
def answerTo (cfg : Config) (m : Message) (body : Bytes) : Published where
  topic := answerTopic cfg (Property.ownTopic m.property)
  data := body
  qos := 1
  props := some ⟨some contentType, Property.answerCorrelation m.property, none⟩

namespace Desk

/-- The request served last can still be answered. -/
def Unanswered (d : Desk σ) : Prop := ∀ e ∈ d.sent, e.1 + 1 < d.served.length

instance (d : Desk σ) : Decidable d.Unanswered := inferInstanceAs (Decidable (∀ e ∈ d.sent, _))

def step (d : Desk σ) (cfg : Config) (svc : Service σ) : DeskAct σ → Option (Desk σ)
  | .arrive m => if m.IsRequest cfg then some { d with waiting := d.waiting ++ [m] } else none
  | .serve =>
    match d.waiting with
    | [] => none
    | m :: rest =>
      let served := svc.serve cfg m d.app
      some { d with waiting := rest, app := served.2, served := d.served ++ [(m, served.1)] }
  | .answer =>
    match d.served.getLast? with
    | none => none
    | some (m, body) =>
      if d.Unanswered then
        some { d with sent := d.sent ++ [(d.served.length - 1, answerTo cfg m body)] }
      else none
  | .outside app => some { d with app }

/-- The steps by label. -/
inductive Step (cfg : Config) (svc : Service σ) (d : Desk σ) : DeskAct σ → Desk σ → Prop
  | arrive {m : Message} (hreq : m.IsRequest cfg) :
      Step cfg svc d (.arrive m) { d with waiting := d.waiting ++ [m] }
  | serve {m : Message} {rest : List Message} {body : Bytes} {app : σ}
      (hwaiting : d.waiting = m :: rest) (hserve : svc.serve cfg m d.app = (body, app)) :
      Step cfg svc d .serve ⟨rest, app, d.served ++ [(m, body)], d.sent⟩
  | answer {m : Message} {body : Bytes} (hlast : d.served.getLast? = some (m, body))
      (hopen : d.Unanswered) :
      Step cfg svc d .answer
        { d with sent := d.sent ++ [(d.served.length - 1, answerTo cfg m body)] }
  | outside {app : σ} : Step cfg svc d (.outside app) { d with app }

theorem step_cases {svc : Service σ} {d d' : Desk σ} {a : DeskAct σ}
    (h : d.step cfg svc a = some d') : Step cfg svc d a d' := by
  cases a with
  | arrive m =>
    simp only [step] at h
    split at h
    · rename_i hreq
      cases h
      exact .arrive hreq
    · cases h
  | serve =>
    simp only [step] at h
    split at h
    · cases h
    · rename_i hwaiting
      cases h
      exact .serve hwaiting rfl
  | answer =>
    simp only [step] at h
    split at h
    · cases h
    · rename_i hlast
      split at h
      · rename_i hopen
        cases h
        exact .answer hlast hopen
      · cases h
  | outside app =>
    cases h
    exact .outside

end Desk

/-- Requests are served in order of arrival, and each one is answered at most once, before the
next one is served. -/
def desk (cfg : Config) (svc : Service σ) (app : σ) : Lts (Desk σ) (DeskAct σ) :=
  ⟨⟨[], app, [], []⟩, fun d => d.step cfg svc⟩

/-! ## What it guarantees -/

/-- The bodies of the answers to these requests, and the state outside after them. -/
def Service.serveAll (svc : Service σ) (cfg : Config) : List Message → σ → List Bytes × σ
  | [], s => ([], s)
  | m :: rest, s =>
    let served := svc.serve cfg m s
    let later := svc.serveAll cfg rest served.2
    (served.1 :: later.1, later.2)

theorem Service.serveAll_concat (svc : Service σ) (ms : List Message) (m : Message) (s : σ) :
    svc.serveAll cfg (ms ++ [m]) s =
      ((svc.serveAll cfg ms s).1 ++ [(svc.serve cfg m (svc.serveAll cfg ms s).2).1],
        (svc.serve cfg m (svc.serveAll cfg ms s).2).2) := by
  induction ms generalizing s with
  | nil => rfl
  | cons m' rest ih =>
    rw [List.cons_append]
    simp only [serveAll, ih, List.cons_append]

/-- The body of an answer is made in the state that the requests before have left. -/
theorem Service.getElem?_serveAll (svc : Service σ) {ms : List Message} {s : σ} {k : Nat}
    {m : Message} {body : Bytes} (hm : ms[k]? = some m)
    (hbody : (svc.serveAll cfg ms s).1[k]? = some body) :
    body = (svc.serve cfg m (svc.serveAll cfg (ms.take k) s).2).1 := by
  induction ms generalizing s k with
  | nil => cases hm
  | cons m' rest ih =>
    cases k with
    | zero =>
      obtain rfl := Option.some.inj hm
      exact (Option.some.inj hbody).symm
    | succ k => exact ih hm hbody

namespace Desk

variable {svc : Service σ} {app : σ}

/-- Serving nothing but requests is serving them all in order. -/
theorem served_all {d : Desk σ} (h : (desk cfg svc app).ReachBy (fun _ a => ¬ a.IsOutside) d) :
    svc.serveAll cfg (d.served.map Prod.fst) app = (d.served.map Prod.snd, d.app) := by
  refine h.invariant
    (I := fun d => svc.serveAll cfg (d.served.map Prod.fst) app = (d.served.map Prod.snd, d.app))
    rfl ?_
  intro d a d' _ hI hg hst
  cases step_cases hst with
  | arrive => exact hI
  | answer => exact hI
  | @serve m rest body app' hwaiting hserve =>
    dsimp only
    rw [List.map_append, List.map_append, List.map_singleton, List.map_singleton]
    rw [svc.serveAll_concat, hI]
    dsimp only
    rw [hserve]
  | outside => exact absurd trivial hg

/-- What was served is what `serve` makes of the request in some state outside. -/
theorem served_reach {g : Desk σ → DeskAct σ → Prop} {d : Desk σ}
    (h : (desk cfg svc app).ReachBy g d) :
    ∀ e ∈ d.served, ∃ s, e.2 = (svc.serve cfg e.1 s).1 := by
  refine h.invariant (I := fun d => ∀ e ∈ d.served, ∃ s, e.2 = (svc.serve cfg e.1 s).1)
    (by rintro e ⟨⟩) ?_
  rintro d a d' - hI - hst
  cases step_cases hst with
  | arrive => exact hI
  | answer => exact hI
  | outside => exact hI
  | @serve m rest body app' hwaiting hserve =>
    intro e he
    rcases List.mem_append.mp he with hold | hnew
    · exact hI e hold
    · rw [List.mem_singleton.mp hnew]
      exact ⟨d.app, (congrArg Prod.fst hserve).symm⟩

/-- Every answer is the one to the request of its number, and no request has two. -/
structure Answered (cfg : Config) (d : Desk σ) : Prop where
  own : ∀ e ∈ d.sent, ∃ m body, d.served[e.1]? = some (m, body) ∧ e.2 = answerTo cfg m body
  once : (d.sent.map Prod.fst).Pairwise (· < ·)

theorem answered_reach {g : Desk σ → DeskAct σ → Prop} {d : Desk σ}
    (h : (desk cfg svc app).ReachBy g d) : Answered cfg d := by
  have hinit : Answered cfg (desk cfg svc app).init := ⟨by rintro e ⟨⟩, .nil⟩
  refine h.invariant hinit ?_
  rintro d a d' - ⟨hown, honce⟩ - hst
  cases step_cases hst with
  | arrive => exact ⟨hown, honce⟩
  | outside => exact ⟨hown, honce⟩
  | @serve m rest body app' hwaiting hserve =>
    refine ⟨fun e he => ?_, honce⟩
    obtain ⟨m, body, hm, hbody⟩ := hown e he
    obtain ⟨hlt, -⟩ := List.getElem?_eq_some_iff.mp hm
    exact ⟨m, body, (List.getElem?_append_left hlt).trans hm, hbody⟩
  | @answer m body hlast hopen =>
    constructor
    · intro e he
      rcases List.mem_append.mp he with hold | hnew
      · exact hown e hold
      · rw [List.mem_singleton.mp hnew]
        refine ⟨m, body, ?_, rfl⟩
        rw [← List.getLast?_eq_getElem?]
        exact hlast
    · dsimp only
      rw [List.map_append, List.pairwise_append]
      refine ⟨honce, List.pairwise_singleton _ _, ?_⟩
      intro k hk n hn
      obtain ⟨e, he, rfl⟩ := List.mem_map.mp hk
      have hlt := hopen e he
      rw [List.mem_singleton.mp hn]
      show e.1 < d.served.length - 1
      omega

end Desk

end SoulCloud
