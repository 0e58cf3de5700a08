import Mathlib
import ResourceCompiler.Binary.Buffer
import ResourceCompiler.Proofs.Assembly.FreeIds

/-!
A resolver over any sequence of calls. The log of the calls tells which ids are taken, so the id of
an import can be judged by the calls in front of it: it is the least one that is left under its
code. Calls about other codes, and calls for files that cannot be read, leave no trace in the rest
of the log.
-/

namespace ResourceCompiler

/-! The search for an id -/

/-- An id is the least one from a desired id on that is not used. -/
structure LeastUnused (used : Int64 → Prop) (desired id : Int64) : Prop where
  unused : ¬used id
  ge : desired ≤ id
  between : ∀ z, desired ≤ z → z < id → used z

/-- A search that tries one id after the other comes to an end. -/
inductive CountsUp (used : Int64 → Prop) : (steps : Nat) → (desired id : Int64) → Prop
  | stop {id : Int64} : ¬used id → CountsUp used 0 id id
  | next {steps : Nat} {desired id : Int64} :
    used desired → CountsUp used steps (desired + 1) id → CountsUp used (steps + 1) desired id

namespace CountsUp

variable {used : Int64 → Prop} {steps : Nat} {desired id left : Int64}

theorem used_of_lt (h : CountsUp used steps desired id) {k : Nat} (hk : k < steps) :
    used (desired + Int64.ofNat k) := by
  induction h generalizing k with
  | stop => exact absurd hk (Nat.not_lt_zero k)
  | next hused _ ih =>
    cases k with
    | zero => simpa using hused
    | succ k => exact add_of_nat_succ _ k ▸ ih (Nat.lt_of_succ_lt_succ hk)

/-- The search does not go past an id that is left, so it never starts over from the first id. -/
theorem to_int_eq (h : CountsUp used steps desired id) (hge : desired ≤ left)
    (hleft : ¬used left) : id.toInt = desired.toInt + steps := by
  induction h with
  | stop => simp
  | @next steps desired id hused _ ih =>
    -- The id that is left is not this one, so it lies behind it and the next one is in range.
    have hlt : desired < left := Int64.lt_of_le_of_ne hge fun h => hleft (h ▸ hused)
    rw [ih (succ_le hlt), to_int_succ hlt, Nat.cast_add, Nat.cast_one]
    omega

/-- It takes no more steps than there are ids in the way. -/
theorem steps_le {ids : List Int64} (h : CountsUp used steps desired id) (hge : desired ≤ left)
    (hleft : ¬used left) (hids : ∀ z, used z → z ∈ ids) : steps ≤ ids.length := by
  by_contra hmore
  have hid := h.to_int_eq hge hleft
  have hlow : -2 ^ 63 ≤ desired.toInt := Int64.le_toInt desired
  have hhigh := Int64.toInt_le id
  rw [Int64.toInt_maxValue] at hhigh
  obtain ⟨k, hk, hnot⟩ :=
    exists_not_mem_of_length_lt (by omega) (Nat.lt_of_not_le hmore) desired
  exact hnot (hids _ (h.used_of_lt hk))

end CountsUp

namespace Resolver

theorem first_free_counts_up {taken : Std.TreeSet Int64} {steps : Nat} {id : Int64}
    (h : taken.contains (firstFree taken steps id) ≠ true) :
    ∃ n, CountsUp (taken.contains · = true) n id (firstFree taken steps id) := by
  induction steps generalizing id with
  | zero => exact ⟨0, .stop h⟩
  | succ steps ih =>
    rw [firstFree] at h ⊢
    by_cases hid : taken.contains id = true
    · rw [if_pos hid] at h ⊢
      obtain ⟨n, hn⟩ := ih h
      exact ⟨n + 1, .next hid hn⟩
    · rw [if_neg hid]
      exact ⟨0, .stop hid⟩

theorem free_id_spec {r : Resolver} {code : String} {desired left : Int64} (hge : desired ≤ left)
    (hleft : ¬r.Uses code left) :
    LeastUnused (r.Uses code) desired (r.freeId code desired) ∧
      ∃ steps, CountsUp (r.Uses code) steps desired (r.freeId code desired) := by
  obtain ⟨hunused, hfrom, hbetween⟩ := free_id_least hge hleft
  exact ⟨⟨hunused, hfrom, hbetween⟩, first_free_counts_up hunused⟩

/-! Calls and their log -/

/-- A call of a resolver. -/
inductive Request
  | reserve (code : String) (id : Int64)
  | resolve (written : String) (desired : Int64) (location : Location)

/-- The type code that a call is about. -/
def Request.code : Request → String
  | .reserve code _ => code
  | .resolve written _ location => typeCodeOfPath (pathFrom location written)

/-- A call and what came of it. -/
inductive Event
  | reserved (code : String) (id : Int64)
  | imported (written : String) (desired : Int64) (location : Location) (file : ImportedFile)
  | failed (written : String) (desired : Int64) (location : Location) (e : CompileError)

namespace Event

def request : Event → Request
  | reserved code id => .reserve code id
  | imported written desired location _ | failed written desired location _ =>
    .resolve written desired location

/-- The id that an import gets, under its code. -/
def import? : Event → Option (String × Int64)
  | imported _ _ _ file => some (file.typeCode, file.id)
  | reserved .. | failed .. => none

/-- The id that is taken from now on. -/
def takes? : Event → Option (String × Int64)
  | reserved code id => some (code, id)
  | event => event.import?

end Event

def serve (disk : FileSystem) (r : Resolver) : Request → Event × Resolver
  | .reserve code id => (.reserved code id, r.reserve code id)
  | .resolve written desired location =>
    match resolve disk written desired location r with
    | (.ok file, r') => (.imported written desired location file, r')
    | (.error e, r') => (.failed written desired location e, r')

def serveAll (disk : FileSystem) (r : Resolver) : List Request → List Event × Resolver
  | [] => ([], r)
  | q :: rest =>
    let served := serve disk r q
    let others := serveAll disk served.2 rest
    (served.1 :: others.1, others.2)

/-- What comes of calls of a new resolver. -/
def log (disk : FileSystem) (requests : List Request) : List Event :=
  (serveAll disk empty requests).1

/-- The ids that are taken after some calls. -/
def Taken (log : List Event) (code : String) (id : Int64) : Prop :=
  (code, id) ∈ log.filterMap Event.takes?

/-- A condition on every event and those in front of it. -/
def Throughout (P : List Event → Event → Prop) (log : List Event) : Prop :=
  ∀ front event back, log = front ++ event :: back → P front event

namespace Event

/-- The search for an id does not have to run past the last id. -/
def Roomy (front : List Event) : Event → Prop
  | imported _ desired _ file => ∃ left, desired ≤ left ∧ ¬Taken front file.typeCode left
  | reserved .. | failed .. => True

/-- What comes of a call is told by the disk and the calls in front of it. An import gets the least
id that is left, and the search for it takes at most one step for each of these calls. -/
def Answered (disk : FileSystem) (front : List Event) : Event → Prop
  | reserved .. => True
  | imported written desired location file =>
    disk.readBytes (pathFrom location written) = .ok file.data ∧
      file.typeCode = typeCodeOfPath (pathFrom location written) ∧
      file.name = (pathFrom location written).stem?.getD "" ∧
      LeastUnused (Taken front file.typeCode) desired file.id ∧
      ∃ steps ≤ front.length, CountsUp (Taken front file.typeCode) steps desired file.id ∧
        file.id.toInt = desired.toInt + steps
  | failed written _ location e => ∃ failure,
    disk.readBytes (pathFrom location written) = .error failure ∧
      e = .disk (pathFrom location written) failure

end Event

/-! One call -/

variable {disk : FileSystem} {r r' : Resolver} {q : Request} {before : List Event}

theorem serve_unreadable {written : String} {location : Location} {failure : DiskFailure}
    (h : disk.readBytes (pathFrom location written) = .error failure) (desired : Int64) :
    serve disk r (.resolve written desired location) =
      (.failed written desired location (.disk (pathFrom location written) failure), r) := by
  simp only [serve, resolve, h]

theorem serve_readable {written : String} {location : Location} {data : ByteArray}
    (h : disk.readBytes (pathFrom location written) = .ok data) (desired : Int64) :
    ∃ file, resolve disk written desired location r =
        (.ok file, r.reserve file.typeCode file.id) ∧
      serve disk r (.resolve written desired location) =
        (.imported written desired location file, r.reserve file.typeCode file.id) := by
  obtain ⟨file, r', hresolve⟩ : ∃ file r', resolve disk written desired location r =
      (.ok file, r') := by simp [resolve, h]
  obtain ⟨-, -, -, -, rfl⟩ := resolve_eq_ok.mp hresolve
  exact ⟨file, hresolve, by rw [serve, hresolve]⟩

theorem request_of_serve : (serve disk r q).1.request = q := by
  cases q with
  | reserve code id => rfl
  | resolve written desired location =>
    cases h : disk.readBytes (pathFrom location written) with
    | error failure => rw [serve_unreadable h]; rfl
    | ok data =>
      obtain ⟨file, -, hserve⟩ := serve_readable h desired
      rw [hserve]
      rfl

/-- A call takes at most one id, and that under its own code. -/
theorem serve_cases (disk : FileSystem) (r : Resolver) (q : Request) :
    ((serve disk r q).1.takes? = none ∧ (serve disk r q).2 = r) ∨
      ∃ id, (serve disk r q).1.takes? = some (q.code, id) ∧
        (serve disk r q).2 = r.reserve q.code id := by
  cases q with
  | reserve code id => exact .inr ⟨id, rfl, rfl⟩
  | resolve written desired location =>
    cases h : disk.readBytes (pathFrom location written) with
    | error failure =>
      rw [serve_unreadable h]
      exact .inl ⟨rfl, rfl⟩
    | ok data =>
      obtain ⟨file, hresolve, hserve⟩ := serve_readable h desired
      obtain ⟨-, hcode, -⟩ := resolve_eq_ok.mp hresolve
      rw [hserve, Request.code, ← hcode]
      exact .inr ⟨file.id, rfl, rfl⟩

theorem taken_append {front back : List Event} {code : String} {id : Int64} :
    Taken (front ++ back) code id ↔ Taken front code id ∨ Taken back code id := by
  rw [Taken, List.filterMap_append, List.mem_append]
  rfl

theorem taken_singleton {event : Event} {code : String} {id : Int64} :
    Taken [event] code id ↔ event.takes? = some (code, id) := by
  simp [Taken]

/-- A call takes one id at most. -/
theorem exists_ids (log : List Event) (code : String) :
    ∃ ids : List Int64, ids.length ≤ log.length ∧ ∀ id, Taken log code id → id ∈ ids := by
  refine ⟨(log.filterMap Event.takes?).map Prod.snd, ?_, fun id h =>
    List.mem_map.mpr ⟨_, h, rfl⟩⟩
  rw [List.length_map]
  exact List.length_filterMap_le _ log

/-- A resolver has in use what a log says is taken. -/
def Records (r : Resolver) (log : List Event) : Prop :=
  ∀ code id, r.Uses code id ↔ Taken log code id

theorem records_empty : Records empty [] := fun code id =>
  iff_of_false (not_uses_empty code id) List.not_mem_nil

theorem Records.after (h : Records r before) (disk : FileSystem) (q : Request) :
    Records (serve disk r q).2 (before ++ [(serve disk r q).1]) := by
  intro code id
  rw [taken_append, taken_singleton]
  rcases serve_cases disk r q with ⟨hnone, hr⟩ | ⟨z, hsome, hr⟩
  · simp [hr, hnone, h code id]
  · rw [hr, hsome, uses_reserve, h code id, Option.some.injEq, Prod.mk.injEq, or_comm,
      @eq_comm _ code, @eq_comm _ id]

theorem Records.answered (h : Records r before) (hroom : (serve disk r q).1.Roomy before) :
    (serve disk r q).1.Answered disk before := by
  cases q with
  | reserve code id => trivial
  | resolve written desired location =>
    cases hread : disk.readBytes (pathFrom location written) with
    | error failure =>
      rw [serve_unreadable hread]
      exact ⟨failure, hread, rfl⟩
    | ok data =>
      obtain ⟨file, hresolve, hserve⟩ := serve_readable (r := r) hread desired
      rw [hserve] at hroom ⊢
      obtain ⟨left, hge, hleft⟩ := hroom
      obtain ⟨hdata, hcode, hname, hid, -⟩ := resolve_eq_ok.mp hresolve
      obtain ⟨hleast, steps, hsteps⟩ := free_id_spec hge (mt (h _ _).mp hleft)
      have hused : r.Uses file.typeCode = Taken before file.typeCode :=
        funext fun id => propext (h _ id)
      rw [hused, ← hid] at hleast hsteps
      obtain ⟨ids, hlength, hids⟩ := exists_ids before file.typeCode
      exact ⟨hdata, hcode, hname, hleast, steps,
        (hsteps.steps_le hge hleft hids).trans hlength, hsteps, hsteps.to_int_eq hge hleft⟩

/-! Many calls -/

theorem serve_all_append (front back : List Request) :
    serveAll disk r (front ++ back) =
      ((serveAll disk r front).1 ++ (serveAll disk (serveAll disk r front).2 back).1,
        (serveAll disk (serveAll disk r front).2 back).2) := by
  induction front generalizing r with
  | nil => rfl
  | cons q rest ih => rw [List.cons_append, serveAll, ih, serveAll, List.cons_append]

theorem requests_of_serve_all {requests : List Request} :
    (serveAll disk r requests).1.map Event.request = requests := by
  induction requests generalizing r with
  | nil => rfl
  | cons q rest ih => rw [serveAll, List.map_cons, request_of_serve, ih]

theorem throughout_cons {P : List Event → Event → Prop} {event : Event} {log : List Event} :
    Throughout P (event :: log) ↔
      P [] event ∧ Throughout (fun front => P (event :: front)) log := by
  constructor
  · intro h
    exact ⟨h [] event log rfl, fun front e back hlog => h (event :: front) e back (hlog ▸ rfl)⟩
  · rintro ⟨hfirst, hrest⟩ front e back hlog
    rcases List.cons_eq_append_iff.mp hlog with ⟨rfl, hcons⟩ | ⟨front, rfl, hlog⟩
    · cases hcons
      exact hfirst
    · exact hrest front e back (List.cons.inj hlog).2

/-- The calls in front of a call are those of the past and those in front of it in the log. -/
theorem Records.answered_all {requests : List Request} (h : Records r before)
    (hroom : Throughout (fun front => Event.Roomy (before ++ front)) (serveAll disk r requests).1) :
    Throughout (fun front => Event.Answered disk (before ++ front))
      (serveAll disk r requests).1 := by
  induction requests generalizing r before with
  | nil => exact fun front event back hlog => absurd hlog (by simp [serveAll])
  | cons q rest ih =>
    rw [serveAll, throughout_cons] at hroom ⊢
    simp only [List.append_nil] at hroom ⊢
    -- The calls behind this one are judged by the past and by this call.
    have hlater := ih (h.after disk q)
    simp only [List.append_assoc, List.cons_append, List.nil_append] at hlater
    exact ⟨h.answered hroom.1, hlater hroom.2⟩

/-- An import gets nothing that was reserved for a declared resource or that another import got. -/
theorem Event.Answered.not_taken {event : Event} {code : String} {id : Int64}
    (h : event.Answered disk before) (himport : event.import? = some (code, id)) :
    ¬Taken before code id := by
  cases event with
  | reserved code id => cases himport
  | failed written desired location e => cases himport
  | imported written desired location file =>
    obtain ⟨-, -, -, hleast, -⟩ := h
    cases himport
    exact hleast.unused

theorem taken_of_import {log : List Event} {code : String} {id : Int64}
    (h : (code, id) ∈ log.filterMap Event.import?) : Taken log code id := by
  obtain ⟨event, hevent, himport⟩ := List.mem_filterMap.mp h
  refine List.mem_filterMap.mpr ⟨event, hevent, ?_⟩
  cases event with
  | reserved code id => cases himport
  | failed written desired location e => cases himport
  | imported written desired location file => exact himport

theorem imports_nodup {log : List Event} (h : Throughout (Event.Answered disk) log) :
    (log.filterMap Event.import?).Nodup := by
  induction log using List.reverseRecOn with
  | nil => exact List.nodup_nil
  | append_singleton front event ih =>
    have hfront : Throughout (Event.Answered disk) front := fun a e b hlog =>
      h a e (b ++ [event]) (by rw [hlog, List.append_assoc, List.cons_append])
    rw [List.filterMap_append]
    cases himport : event.import? with
    | none => simpa [himport] using ih hfront
    | some taken =>
      have hnew := (h front event [] rfl).not_taken himport
      rw [List.filterMap_cons_some himport, List.filterMap_nil]
      exact (ih hfront).append (List.nodup_singleton _)
        (List.disjoint_singleton.mpr fun hmem => hnew (taken_of_import hmem))

/-! Calls that do not matter -/

/-- What comes of a call depends on the ids under its own code only. -/
theorem serve_congr (disk : FileSystem) (h : r.takenIds q.code = r'.takenIds q.code) :
    (serve disk r q).1 = (serve disk r' q).1 ∧
      (serve disk r q).2.takenIds q.code = (serve disk r' q).2.takenIds q.code := by
  cases q with
  | reserve code id =>
    rw [Request.code] at h ⊢
    simp only [serve, taken_ids_reserve, h, and_self]
  | resolve written desired location =>
    rw [Request.code] at h ⊢
    cases hread : disk.readBytes (pathFrom location written) with
    | error failure =>
      rw [serve_unreadable hread, serve_unreadable hread]
      exact ⟨rfl, h⟩
    | ok data => simp only [serve, resolve, hread, freeId, taken_ids_reserve, h, and_self]

theorem taken_ids_serve (disk : FileSystem) (r : Resolver) {code : String} (h : q.code ≠ code) :
    (serve disk r q).2.takenIds code = r.takenIds code := by
  rcases serve_cases disk r q with ⟨-, hr⟩ | ⟨id, -, hr⟩
  · rw [hr]
  · rw [hr, taken_ids_reserve, if_neg h.symm]

/-- The calls about one code are served as if there were no others. -/
theorem filter_serve_all {requests : List Request} {code : String}
    (h : r.takenIds code = r'.takenIds code) :
    (serveAll disk r requests).1.filter (·.request.code == code) =
      (serveAll disk r' (requests.filter (·.code == code))).1 := by
  induction requests generalizing r r' with
  | nil => rfl
  | cons q rest ih =>
    rw [serveAll, List.filter_cons, List.filter_cons, request_of_serve]
    by_cases hcode : q.code = code
    · subst hcode
      obtain ⟨hevent, hnext⟩ := serve_congr disk h
      rw [if_pos BEq.rfl, if_pos BEq.rfl, serveAll, hevent, ih hnext]
    · have hnext := (taken_ids_serve disk r hcode).trans h
      rw [beq_eq_false_iff_ne.mpr hcode, if_neg Bool.false_ne_true, if_neg Bool.false_ne_true,
        ih hnext]

/-- A call for a file that cannot be read changes nothing for the calls behind it. -/
theorem serve_all_unreadable {written : String} {location : Location} {failure : DiskFailure}
    (h : disk.readBytes (pathFrom location written) = .error failure) (desired : Int64)
    (front back : List Request) :
    ∃ rest last,
      serveAll disk r (front ++ .resolve written desired location :: back) =
        ((serveAll disk r front).1 ++ .failed written desired location
          (.disk (pathFrom location written) failure) :: rest, last) ∧
      serveAll disk r (front ++ back) = ((serveAll disk r front).1 ++ rest, last) := by
  refine ⟨_, _, ?_, serve_all_append front back⟩
  rw [serve_all_append, serveAll, serve_unreadable h]

/-! Small ids -/

theorem exists_left {log : List Event} {desired : Int64} (code : String)
    (hsmall : desired.toInt + log.length ≤ Int64.maxValue.toInt) :
    ∃ left, desired ≤ left ∧ ¬Taken log code left := by
  obtain ⟨ids, hlength, hids⟩ := exists_ids log code
  have hlow : -2 ^ 63 ≤ desired.toInt := Int64.le_toInt desired
  have hmax := Int64.toInt_maxValue
  obtain ⟨k, hk, hnot⟩ :=
    exists_not_mem_of_length_lt (by omega) (Nat.lt_succ_of_le hlength) desired
  refine ⟨desired + Int64.ofNat k, ?_, mt (hids _) hnot⟩
  rw [Int64.le_iff_toInt_le, to_int_add_of_nat (by omega)]
  omega

/-- If the ids are so small that counting up over one id for each call stays below the last id, the
search never runs past it. -/
theorem roomy_of_small {requests : List Request}
    (hsmall : ∀ written desired location, .resolve written desired location ∈ requests →
      desired.toInt + requests.length ≤ Int64.maxValue.toInt) :
    Throughout Event.Roomy (log disk requests) := by
  intro front event back hlog
  cases event with
  | reserved code id => trivial
  | failed written desired location e => trivial
  | imported written desired location file =>
    have hrequests : (log disk requests).map Event.request = requests := requests_of_serve_all
    rw [hlog, List.map_append, List.map_cons] at hrequests
    have hmem : .resolve written desired location ∈ requests :=
      hrequests ▸ List.mem_append_right _ List.mem_cons_self
    have hlength := congrArg List.length hrequests
    rw [List.length_append, List.length_map, List.length_cons] at hlength
    have hbound := hsmall written desired location hmem
    exact exists_left file.typeCode (by omega)

/-- Every import gets the least id from the desired one on that by then is neither reserved under
its code nor given to an import, so no two imports get one id under one code. Calls about one code
do not depend on the others, and a call for a file that cannot be read might as well not be made. -/
theorem ids_fresh_and_least (disk : FileSystem) (requests : List Request)
    (hroom : Throughout Event.Roomy (log disk requests)) :
    (log disk requests).map Event.request = requests ∧
      Throughout (Event.Answered disk) (log disk requests) ∧
      ((log disk requests).filterMap Event.import?).Nodup ∧
      (∀ code, (log disk requests).filter (·.request.code == code) =
        log disk (requests.filter (·.code == code))) ∧
      ∀ front written desired location back failure,
        requests = front ++ .resolve written desired location :: back →
        disk.readBytes (pathFrom location written) = .error failure →
        ∃ rest last,
          serveAll disk empty requests = (log disk front ++ .failed written desired location
            (.disk (pathFrom location written) failure) :: rest, last) ∧
          serveAll disk empty (front ++ back) = (log disk front ++ rest, last) := by
  have hanswered : Throughout (Event.Answered disk) (log disk requests) :=
    records_empty.answered_all hroom
  refine ⟨requests_of_serve_all, hanswered, imports_nodup hanswered,
    fun code => filter_serve_all rfl, ?_⟩
  rintro front written desired location back failure rfl hread
  exact serve_all_unreadable hread desired front back

/-! A few calls -/

def artDisk : FileSystem :=
  ((FileSystem.fresh []).put ["a.png"] (.file (bytesOf [0x89, 80]))).put ["a.txt"]
    (.file (bytesOf [104]))

def artCalls : List Request :=
  [.reserve "PNG " 128, .reserve "PNG " 130, .resolve "a.png" 128 ⟨"main.kdl", 3⟩,
    .resolve "b.png" 128 ⟨"main.kdl", 4⟩, .resolve "a.txt" 128 ⟨"main.kdl", 5⟩,
    .resolve "a.png" 128 ⟨"main.kdl", 6⟩]

/-- The second time the picture gets the id 131, as 129 is its own by then and 130 is reserved. -/
theorem ids_fresh_and_least_art :
    (log artDisk artCalls).filterMap Event.import? =
        [("PNG ", 129), ("TEXT", 128), ("PNG ", 131)] ∧
      Throughout (Event.Answered artDisk) (log artDisk artCalls) ∧
      log artDisk (artCalls.filter (·.code == "TEXT")) =
        (log artDisk artCalls).filter (·.request.code == "TEXT") := by
  have hsmall : ∀ written desired location, .resolve written desired location ∈ artCalls →
      desired.toInt + artCalls.length ≤ Int64.maxValue.toInt := by
    intro written desired location hmem
    simp only [artCalls, List.mem_cons, reduceCtorEq, Request.resolve.injEq, List.not_mem_nil,
      false_or, or_false] at hmem
    have hdesired : desired = 128 := by
      rcases hmem with ⟨-, h, -⟩ | ⟨-, h, -⟩ | ⟨-, h, -⟩ | ⟨-, h, -⟩ <;> exact h
    rw [hdesired]
    decide
  obtain ⟨-, hanswered, -, hcodes, -⟩ :=
    ids_fresh_and_least artDisk artCalls (roomy_of_small hsmall)
  exact ⟨by cbv, hanswered, (hcodes "TEXT").symm⟩

end Resolver

end ResourceCompiler
