import Amqp.Connection.Options
import Amqp.Proofs.Url.Reading

/-!
# Addresses with an interval

An interval is added to an address that gives none. Read again, the address has the parts and the
pairs that it had, spaces at the end of an undivided path aside, and an address that gives an
interval stays as it is.
-/

namespace Amqp

variable {u : Url} {uri interval : String}

namespace Url

/-! ## What adding keeps -/

theorem Sound.withHeartbeat (h : u.Sound) (interval : String) :
    (u.withHeartbeat interval).Sound := by
  rw [Url.withHeartbeat]
  split
  · exact h
  · exact h.addPair _

/-- The path behind which an interval stands: it keeps the spaces at its end if the query stays as
it is, or in front of a fragment. -/
def pathWithHeartbeat (u : Url) : Path :=
  if u.hasHeartbeat ∨ u.fragment.isSome then u.path else u.path.dropSpaces

/-- Only the path and the query change. -/
theorem withHeartbeat_eq (u : Url) (interval : String) :
    ∃ query, u.withHeartbeat interval = { u with path := u.pathWithHeartbeat, query } := by
  by_cases hgiven : u.hasHeartbeat
  · refine ⟨u.query, ?_⟩
    rw [Url.withHeartbeat, if_pos hgiven, pathWithHeartbeat, if_pos (.inl hgiven)]
  · refine ⟨some (queryOf (u.pairs ++ [(heartbeatName, interval.toList)])), ?_⟩
    rw [Url.withHeartbeat, if_neg hgiven, addPair, pathWithHeartbeat]
    simp only [hgiven, Bool.false_eq_true, false_or]

theorem pairs_withHeartbeat (u : Url) (interval : String) : (u.withHeartbeat interval).pairs =
    u.pairs ++ if u.hasHeartbeat then [] else [(heartbeatName, interval.toList)] := by
  rw [Url.withHeartbeat]
  split
  · exact (List.append_nil _).symm
  · exact pairs_addPair _ _

/-- There is an interval afterwards, whether it was given or added. -/
theorem hasHeartbeat_withHeartbeat (u : Url) (interval : String) :
    (u.withHeartbeat interval).hasHeartbeat := by
  by_cases hgiven : u.hasHeartbeat
  · rwa [Url.withHeartbeat, if_pos hgiven]
  · rw [hasHeartbeat, pairs_withHeartbeat, if_neg hgiven, List.any_append, Bool.or_eq_true]
    exact .inr rfl

/-- The same is written for a URL as it is read again. -/
theorem href_pathAgain (u : Url) : href { u with path := u.pathAgain } = u.href := by
  have hpath := chars_pathAgain u
  have hfront : authorityChars { u with path := u.pathAgain } = authorityChars u := by
    rw [pathAgain]
    split
    · rename_i hnone
      simp only [authorityChars, hnone.1, hnone.2]
    · rfl
  simp only [href, chars, hpath, hfront]

/-- How the address with the interval is read, next to the one without. -/
structure Gains (interval : String) (u v : Url) : Prop where
  scheme : v.scheme = u.scheme
  username : v.username = u.username
  password : v.password = u.password
  host : v.host = u.host
  port : v.port = u.port
  path : v.path.chars = u.pathWithHeartbeat.chars
  fragment : v.fragment = u.fragment
  pairs : v.pairs = u.pairs ++ if u.hasHeartbeat then [] else [(heartbeatName, interval.toList)]

theorem gains_withHeartbeat (u : Url) (interval : String) : u.Gains interval
    { u.withHeartbeat interval with path := (u.withHeartbeat interval).pathAgain } := by
  obtain ⟨query, heq⟩ := u.withHeartbeat_eq interval
  refine ⟨?_, ?_, ?_, ?_, ?_, ?_, ?_, u.pairs_withHeartbeat interval⟩
  · rw [heq]
  · rw [heq]
  · rw [heq]
  · rw [heq]
  · rw [heq]
  · rw [chars_pathAgain, heq]
  · rw [heq]

/-- A URL with an interval is written as it is. -/
theorem href_withHeartbeat (h : u.hasHeartbeat) : (u.withHeartbeat interval).href = u.href := by
  rw [Url.withHeartbeat, if_pos h]

end Url

/-! ## Addresses -/

theorem addressOf_none (h : Url.parse? uri = none) (interval : Number) :
    addressOf (.text uri) (.number interval) =
      .error (.failure (.invalidUri invalidUrlDetail)) := by
  simp only [addressOf, Value.text?, h]

theorem addressOf_some (h : Url.parse? uri = some u) (interval : Number) :
    addressOf (.text uri) (.number interval) = .ok (u.withHeartbeat interval.text).href := by
  simp only [addressOf, Value.text?, h]

/-- **Intervals.** An address that is no URL is refused. Of a URL an address is made that reads as
the URL, with the interval behind its pairs if none of them gives one, and with its pairs as they
are otherwise; another interval changes nothing about that address. -/
theorem addressOf_gains (uri : String) (interval : Number) :
    (Url.parse? uri = none → ∃ error, addressOf (.text uri) (.number interval) =
      .error (.failure error) ∧ error.report.name = "RMQConnectionError") ∧
    ∀ u, Url.parse? uri = some u → ∃ address v,
      addressOf (.text uri) (.number interval) = .ok address ∧ Url.parse? address = some v ∧
        u.Gains interval.text v ∧
          ∀ other, addressOf (.text address) (.number other) = .ok address := by
  refine ⟨fun hnone => ⟨_, addressOf_none hnone interval, rfl⟩, fun u hread => ?_⟩
  have hagain := ((Url.sound_of_parse? hread).withHeartbeat interval.text).parse?_href
  refine ⟨_, _, addressOf_some hread interval, hagain, u.gains_withHeartbeat interval.text,
    fun other => ?_⟩
  -- What is read again gives an interval, so nothing is added to it.
  have hgiven : Url.hasHeartbeat { u.withHeartbeat interval.text with
      path := (u.withHeartbeat interval.text).pathAgain } :=
    u.hasHeartbeat_withHeartbeat interval.text
  rw [addressOf_some hagain other, Url.href_withHeartbeat hgiven, Url.href_pathAgain]

example : (addressOf (.text "amqp://a/v?x=%2B&=") (.number (.ofNat 10))).toOption =
    some "amqp://a/v?x=%2B&=&heartbeat=10" := by
  decide +kernel

/-- An undivided path loses the spaces at its end, which stood in front of a query before. -/
theorem path_losesSpaces :
    (Url.parse? "x:a b  ?q").map (·.path.chars) = some "a b  ".toList ∧
      (addressOf (.text "x:a b  ?q") (.number (.ofNat 10))).toOption =
        some "x:a b?q=&heartbeat=10" ∧
      (Url.parse? "x:a b?q=&heartbeat=10").map (·.path.chars) = some "a b".toList := by
  refine ⟨?_, ?_, ?_⟩
  · decide +kernel
  · decide +kernel
  · decide +kernel

end Amqp
