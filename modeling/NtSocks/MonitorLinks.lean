import NtSocks.Handshake
import NtSocks.MonitorUpdates

/-!
# The connection to the peer's monitor

A connecting socket reaches the monitor of its peer over a TCP connection that is opened for the
first request to connect to an address and cached for the later ones. Only the request that opens
the connection enters it into the record of its socket. The record is where `handle_msg_nts_fin`
looks for the connection on which the end of the socket is reported.

The monitor handles requests to connect and the answers to the `NT_SYN` messages it has sent; `sent`
lists these messages, each with the record of its socket.
-/

namespace NtSocks.Ntm

open Function

open NtSocks.Ntm.NtSockContext (sockid)

/-- Nothing is changed that says how sockets reach the monitors of their peers. -/
structure SameLinks (mgr mgr' : NtmManager) : Prop where
  map : mgr'.ntsShmConnMap = mgr.ntsShmConnMap
  connMap : mgr'.connMap = mgr.connMap
  state : ∀ i, (mgr'.socket i).state = (mgr.socket i).state
  socket : ∀ c, (mgr'.shmConns c).socket = (mgr.shmConns c).socket
  ntmConn : ∀ c, (mgr'.shmConns c).ntmConn = (mgr.shmConns c).ntmConn
  peer : ∀ c, (mgr'.shmConns c).peerSinAddr = (mgr.shmConns c).peerSinAddr

namespace SameLinks

variable {mgr mgr' mgr'' : NtmManager}

theorem refl (mgr : NtmManager) : SameLinks mgr mgr :=
  ⟨rfl, rfl, fun _ => rfl, fun _ => rfl, fun _ => rfl, fun _ => rfl⟩

theorem trans (h : SameLinks mgr mgr') (h' : SameLinks mgr' mgr'') : SameLinks mgr mgr'' where
  map := h'.map.trans h.map
  connMap := h'.connMap.trans h.connMap
  state := fun i => (h'.state i).trans (h.state i)
  socket := fun c => (h'.socket c).trans (h.socket c)
  ntmConn := fun c => (h'.ntmConn c).trans (h.ntmConn c)
  peer := fun c => (h'.peer c).trans (h.peer c)

theorem modifyShmConn (mgr : NtmManager) (c : ℕ) {f : NtsShmConn → NtsShmConn}
    (hf : ∀ conn, (f conn).socket = conn.socket ∧ (f conn).ntmConn = conn.ntmConn ∧
      (f conn).peerSinAddr = conn.peerSinAddr) : SameLinks mgr (mgr.modifyShmConn c f) := by
  exact ⟨rfl, rfl, fun _ => rfl,
    mgr.modifyShmConn_field NtsShmConn.socket (fun conn => (hf conn).1) c,
    mgr.modifyShmConn_field NtsShmConn.ntmConn (fun conn => (hf conn).2.1) c,
    mgr.modifyShmConn_field NtsShmConn.peerSinAddr (fun conn => (hf conn).2.2) c⟩

theorem modifySocket (mgr : NtmManager) (i : ℕ) {f : NtSocket → NtSocket}
    (hf : ∀ socket, (f socket).state = socket.state) : SameLinks mgr (mgr.modifySocket i f) := by
  refine ⟨rfl, rfl, fun j => ?_, fun _ => rfl, fun _ => rfl, fun _ => rfl⟩
  by_cases hj : j = i
  · rw [hj, NtmManager.modifySocket_self, hf]
  · rw [mgr.modifySocket_of_ne hj]

theorem ntsShmSend {c : ℕ} {msg : NtsMsg} (h : mgr.ntsShmSend c msg = some mgr') :
    SameLinks mgr mgr' := by
  obtain ⟨ring, -, rfl⟩ := Option.map_eq_some_iff.mp h
  exact modifyShmConn mgr c fun _ => ⟨rfl, rfl, rfl⟩

theorem cacheServer (mgr : NtmManager) (msg : NtmMsg) (c : ℕ) :
    SameLinks mgr (mgr.cacheServer msg c) :=
  modifyShmConn mgr c fun _ => ⟨rfl, rfl, rfl⟩

theorem connectFail (mgr : NtmManager) (i : ℕ) (port : Option ℕ) :
    SameLinks mgr (mgr.connectFail i port) := by
  simp only [NtmManager.connectFail]
  split
  · split
    · have hmodify := modifySocket mgr i (f := fun socket =>
        { socket with saddr := { socket.saddr with sinPort := htons 0 } }) fun _ => rfl
      exact ⟨rfl, rfl, hmodify.state, fun _ => rfl, fun _ => rfl, fun _ => rfl⟩
    · exact refl mgr
  · exact refl mgr

theorem allocateSourcePort {i : ℕ} {port : Option ℕ}
    (h : mgr.allocateSourcePort i = some (port, mgr')) : SameLinks mgr mgr' := by
  rw [NtmManager.allocateSourcePort] at h
  split at h
  · split at h
    · cases h
    case h_2 p portCtx _ =>
      cases h
      have hmodify := modifySocket { mgr with ntPortCtx := portCtx } i (f := fun socket =>
        { socket with
          saddr :=
            { sinFamily := afInet
              sinPort := htons (NtPortContext.portId p)
              sinAddr := mgr.listenIp } }) fun _ => rfl
      exact ⟨rfl, rfl, hmodify.state, fun _ => rfl, fun _ => rfl, fun _ => rfl⟩
  · cases h
    exact refl mgr

end SameLinks

namespace NtmManager

variable {mgr mgr' : NtmManager} {out : List NtmSockMsg} {tcp : Tcp} {uninitialised : Option ℕ}
  {msg : NtmMsg} {c : ℕ}

theorem connectRefuse_sameLinks {ntErrno : NtErrno}
    (h : mgr.connectRefuse msg c uninitialised ntErrno = some (mgr', out)) :
    SameLinks mgr mgr' ∧ out = [] := by
  obtain ⟨mgr₁, hsend, heq⟩ := Option.map_eq_some_iff.mp h
  cases heq
  exact ⟨(SameLinks.ntsShmSend hsend).trans (SameLinks.connectFail mgr₁ _ _), rfl⟩

structure Opened (mgr mgr' : NtmManager) (c : ℕ) (conn : NtmConn) : Prop where
  map : mgr'.ntsShmConnMap = mgr.ntsShmConnMap
  connMap : mgr'.connMap = update mgr.connMap conn.ip (some conn)
  state : ∀ i, (mgr'.socket i).state = (mgr.socket i).state
  socket : ∀ d, (mgr'.shmConns d).socket = (mgr.shmConns d).socket
  linked : (mgr'.shmConns c).ntmConn = some conn
  others : ∀ d ≠ c, (mgr'.shmConns d).ntmConn = (mgr.shmConns d).ntmConn
  peer : ∀ d, (mgr'.shmConns d).peerSinAddr = (mgr.shmConns d).peerSinAddr

theorem Opened.of_sameLinks {mgr₀ mgr₁ : NtmManager} {conn : NtmConn} (hbefore : SameLinks mgr mgr₀)
    (h : Opened mgr₀ mgr₁ c conn) (hafter : SameLinks mgr₁ mgr') : Opened mgr mgr' c conn where
  map := hafter.map.trans (h.map.trans hbefore.map)
  connMap := by rw [hafter.connMap, h.connMap, hbefore.connMap]
  state := fun i => (hafter.state i).trans ((h.state i).trans (hbefore.state i))
  socket := fun d => (hafter.socket d).trans ((h.socket d).trans (hbefore.socket d))
  linked := (hafter.ntmConn c).trans h.linked
  others := fun d hd => (hafter.ntmConn d).trans ((h.others d hd).trans (hbefore.ntmConn d))
  peer := fun d => (hafter.peer d).trans ((h.peer d).trans (hbefore.peer d))

theorem remoteMonitor_links {ntmConn : NtmConn} (h : mgr.remoteMonitor tcp c = some (ntmConn, mgr'))
    :
    mgr.connMap (mgr.shmConns c).ip = some ntmConn ∧ mgr' = mgr ∨
      ntmConn.ip = (mgr.shmConns c).ip ∧ Opened mgr mgr' c ntmConn := by
  simp only [remoteMonitor] at h
  split at h
  case h_1 conn hconn =>
    cases h
    exact .inl ⟨hconn, rfl⟩
  · split at h
    · cases h
      refine .inr ⟨rfl, rfl, rfl, fun _ => rfl,
        modifyShmConn_field _ NtsShmConn.socket (by intro; rfl) c, ?_, fun d hd => ?_,
        modifyShmConn_field _ NtsShmConn.peerSinAddr (by intro; rfl) c⟩
      · rw [modifyShmConn_self]
      · rw [modifyShmConn_of_ne _ hd]
    · cases h

/-- A request to connect leaves all links alone, its `NT_SYN` going over a cached connection, or
opens a connection for its own record. -/
theorem handleMsgNtsConnect_links
    (h : mgr.handleMsgNtsConnect tcp msg uninitialised = some (mgr', out)) :
    ∃ c, mgr.ntsShmConnMap msg.sockid = some c ∧
      ((SameLinks mgr mgr' ∧ ∀ syn ∈ out, ∃ conn, mgr.connMap msg.address = some conn ∧
          syn.dstAddr = conn.ip) ∨
        (mgr.socket (mgr.shmConns c).socket).state ≠ .established ∧
          ∃ conn : NtmConn, conn.ip = msg.address ∧ Opened mgr mgr' c conn ∧
            ∀ syn ∈ out, syn.dstAddr = conn.ip) := by
  obtain ⟨c, hrecord, ⟨ntErrno, hrefuse⟩ | ⟨hstate, ⟨hsend, rfl⟩ | ⟨ntmConn, mgr₁, port, mgr₂,
    hremote, hport, hend⟩⟩⟩ := handleMsgNtsConnect_paths h
  · obtain ⟨hsame, rfl⟩ := connectRefuse_sameLinks hrefuse
    exact ⟨c, hrecord, .inl ⟨hsame, fun _ hsyn => absurd hsyn List.not_mem_nil⟩⟩
  · refine ⟨c, hrecord, .inl ⟨?_, fun _ hsyn => absurd hsyn List.not_mem_nil⟩⟩
    exact (SameLinks.cacheServer mgr msg c).trans (SameLinks.ntsShmSend hsend)
  · have hip : ((mgr.cacheServer msg c).shmConns c).ip = msg.address := by
      rw [cacheServer, modifyShmConn_self]
    have hafter : SameLinks mgr₁ mgr' ∧ ∀ syn ∈ out, syn.dstAddr = ntmConn.ip := by
      have hallocate := SameLinks.allocateSourcePort hport
      rcases hend with ⟨syn, rfl, rfl, hsend⟩ | ⟨-, rfl, rfl⟩
      · refine ⟨hallocate.trans (SameLinks.ntsShmSend hsend), fun syn hsyn => ?_⟩
        rw [List.mem_singleton.mp hsyn]
        rfl
      · exact ⟨hallocate.trans (SameLinks.connectFail mgr₂ _ _),
          fun _ hsyn => absurd hsyn List.not_mem_nil⟩
    have hbefore := SameLinks.cacheServer mgr msg c
    refine ⟨c, hrecord, ?_⟩
    rcases remoteMonitor_links hremote with ⟨hcached, rfl⟩ | ⟨hnew, hopened⟩
    · rw [hip, hbefore.connMap] at hcached
      exact .inl ⟨hbefore.trans hafter.1, fun syn hsyn => ⟨ntmConn, hcached, hafter.2 syn hsyn⟩⟩
    · exact .inr ⟨hstate, ntmConn, hnew.trans hip, hopened.of_sameLinks hbefore hafter.1, hafter.2⟩

end NtmManager

/-- A monitor and the `NT_SYN` messages that it has sent, each with the record of its socket. -/
structure ConnectingMonitor where
  host : Host
  sent : List (ℕ × NtmSockMsg)

namespace ConnectingMonitor

inductive Act where
  | connect (tcp : Tcp) (uninitialised : Option ℕ) (msg : NtmMsg)
  | reply (ntmConn : NtmConn) (msg : NtmSockMsg)

variable (shmAccept : String → Bool) (s : ConnectingMonitor)

def isReply : NtmSockMsgType → Bool
  | .ntSynAck | .ntInvalidPort | .ntListenerNotFound | .ntListenerNotReady | .ntBacklogIsFull =>
    true
  | _ => false

def answersSyn (msg : NtmSockMsg) : Bool :=
  isReply msg.type &&
    s.sent.any fun (_, syn) => decide (msg.dport = syn.sport ∧ msg.srcAddr = syn.dstAddr)

def step : Act → Option ConnectingMonitor
  | .connect tcp uninitialised msg =>
    match s.host.ntm.ntsShmConnMap msg.sockid with
    | none => none
    | some c =>
      (s.host.ntm.handleMsgNtsConnect tcp msg uninitialised).map fun (ntm, out) =>
        { host := { s.host with ntm := ntm }, sent := s.sent ++ out.map fun syn => (c, syn) }
  | .reply ntmConn msg =>
    if s.answersSyn msg then
      (s.host.ntmSockHandleMsg shmAccept ntmConn msg).map fun (host, _) =>
        { s with host := host }
    else none

/-- A request to connect finds no connection to its address, or the one of its own record, and
earlier messages for its socket went to the same address. An answer finds the socket that it is
for. -/
def KeepsLink : Act → Prop
  | .connect _ _ msg => ∀ c, s.host.ntm.ntsShmConnMap msg.sockid = some c →
      (∀ conn, s.host.ntm.connMap msg.address = some conn →
        (s.host.ntm.shmConns c).ntmConn = some conn) ∧
      ∀ syn, (c, syn) ∈ s.sent → syn.dstAddr = msg.address
  | .reply _ msg => ∀ i c, s.host.ntm.portSockMap (ntohs msg.dport).toNat = some i →
      s.host.ntm.ntsShmConnMap (sockid i) = some c →
      ∃ syn, (c, syn) ∈ s.sent ∧ syn.dstAddr = msg.srcAddr

def Keyed (mgr : NtmManager) : Prop :=
  ∀ id c, mgr.ntsShmConnMap id = some c → id = sockid (mgr.shmConns c).socket

/-- Every established socket in the map has the connection to the monitor of its peer. -/
def Linked (mgr : NtmManager) : Prop :=
  ∀ id c, mgr.ntsShmConnMap id = some c →
    (mgr.socket (mgr.shmConns c).socket).state = .established →
    ∃ conn, (mgr.shmConns c).ntmConn = some conn ∧ conn.ip = (mgr.shmConns c).peerSinAddr

variable {shmAccept s} {s' : ConnectingMonitor} {tcp : Tcp} {msg : NtmSockMsg} {conn : NtmConn}
  {c : ℕ}

structure Inv (s : ConnectingMonitor) : Prop where
  keyed : Keyed s.host.ntm
  cached : ∀ ip conn, s.host.ntm.connMap ip = some conn → conn.ip = ip
  sent : ∀ c syn, (c, syn) ∈ s.sent →
    ∃ conn, (s.host.ntm.shmConns c).ntmConn = some conn ∧ conn.ip = syn.dstAddr
  linked : Linked s.host.ntm

theorem Inv.of_sameLinks (h : s.Inv) (hsame : SameLinks s.host.ntm s'.host.ntm)
    (hsent : ∀ c syn, (c, syn) ∈ s'.sent → (c, syn) ∈ s.sent ∨
      ∃ conn, (s.host.ntm.shmConns c).ntmConn = some conn ∧ conn.ip = syn.dstAddr) : s'.Inv where
  keyed := by
    intro id c hc
    rw [hsame.map] at hc
    rw [hsame.socket]
    exact h.keyed id c hc
  cached := by
    intro ip conn hconn
    rw [hsame.connMap] at hconn
    exact h.cached ip conn hconn
  sent := by
    intro c syn hsyn
    rw [hsame.ntmConn]
    rcases hsent c syn hsyn with hold | hnew
    · exact h.sent c syn hold
    · exact hnew
  linked := by
    intro id c hc hstate
    rw [hsame.map] at hc
    rw [hsame.socket, hsame.state] at hstate
    rw [hsame.ntmConn, hsame.peer]
    exact h.linked id c hc hstate

theorem Inv.opened (h : s.Inv)
    (hclosed : (s.host.ntm.socket (s.host.ntm.shmConns c).socket).state ≠ .established)
    (hopened : NtmManager.Opened s.host.ntm s'.host.ntm c conn)
    (hearlier : ∀ syn, (c, syn) ∈ s.sent → syn.dstAddr = conn.ip)
    (hsent : ∀ d syn, (d, syn) ∈ s'.sent → (d, syn) ∈ s.sent ∨ d = c ∧ syn.dstAddr = conn.ip) :
    s'.Inv where
  keyed := by
    intro id d hd
    rw [hopened.map] at hd
    rw [hopened.socket]
    exact h.keyed id d hd
  cached := by
    intro ip conn' hconn
    rw [hopened.connMap] at hconn
    by_cases hip : ip = conn.ip
    · rw [hip, update_self, Option.some.injEq] at hconn
      rw [hip, hconn]
    · rw [update_of_ne hip] at hconn
      exact h.cached ip conn' hconn
  sent := by
    intro d syn hsyn
    by_cases hd : d = c
    · subst hd
      refine ⟨conn, hopened.linked, ?_⟩
      rcases hsent d syn hsyn with hold | ⟨-, hnew⟩
      · exact (hearlier syn hold).symm
      · exact hnew.symm
    · rw [hopened.others d hd]
      rcases hsent d syn hsyn with hold | ⟨heq, -⟩
      · exact h.sent d syn hold
      · exact absurd heq hd
  linked := by
    intro id d hd hstate
    rw [hopened.map] at hd
    rw [hopened.socket, hopened.state] at hstate
    -- the socket of `c` is not established, so the record is another one
    have hne : d ≠ c := fun heq => hclosed (heq ▸ hstate)
    rw [hopened.others d hne, hopened.peer]
    exact h.linked id d hd hstate

theorem Inv.established {i : ℕ} (h : s.Inv) (hentered : SynAckEntered s.host.ntm s'.host.ntm msg i)
    (hsent : s'.sent = s.sent) (hanswers : ∀ c, s.host.ntm.ntsShmConnMap (sockid i) = some c →
      ∃ syn, (c, syn) ∈ s.sent ∧ syn.dstAddr = msg.srcAddr) : s'.Inv := by
  have hsocket := hentered.field NtsShmConn.socket fun _ _ _ _ => rfl
  have hntmConn := hentered.field NtsShmConn.ntmConn fun _ _ _ _ => rfl
  constructor
  case keyed =>
    intro id d hd
    rw [hentered.records] at hd
    rw [hsocket]
    exact h.keyed id d hd
  case cached =>
    intro ip conn hconn
    rw [hentered.connMap] at hconn
    exact h.cached ip conn hconn
  case sent =>
    intro d syn hsyn
    rw [hsent] at hsyn
    rw [hntmConn]
    exact h.sent d syn hsyn
  case linked =>
    intro id d hd hstate
    rw [hentered.records] at hd
    rw [hsocket, hentered.sockets, NtmManager.setState] at hstate
    rw [hntmConn]
    by_cases hi : (s.host.ntm.shmConns d).socket = i
    · rw [h.keyed id d hd, hi] at hd
      obtain ⟨syn, hsyn, hdst⟩ := hanswers d hd
      obtain ⟨conn, hconn, hip⟩ := h.sent d syn hsyn
      obtain ⟨ring, -, hentry⟩ := hentered.conn d hd
      exact ⟨conn, hconn, by rw [hentry, hip, hdst]⟩
    · have hother : s.host.ntm.ntsShmConnMap (sockid i) ≠ some d := by
        intro heq
        have hid := h.keyed _ d heq
        simp only [NtSockContext.sockid] at hid
        omega
      rw [NtmManager.modifySocket_of_ne _ hi] at hstate
      rw [hentered.conns d hother]
      exact h.linked id d hd hstate

theorem Inv.connect {uninitialised : Option ℕ} {msg : NtmMsg} (h : s.Inv)
    (hkeeps : s.KeepsLink (.connect tcp uninitialised msg))
    (hstep : s.step shmAccept (.connect tcp uninitialised msg) = some s') : s'.Inv := by
  simp only [step] at hstep
  split at hstep
  · cases hstep
  case h_2 c hrecord =>
    obtain ⟨⟨ntm, out⟩, hhandle, rfl⟩ := Option.map_eq_some_iff.mp hstep
    obtain ⟨hcached, hearlier⟩ := hkeeps c hrecord
    have hsent : ∀ d syn, (d, syn) ∈ s.sent ++ out.map (fun syn => (c, syn)) →
        (d, syn) ∈ s.sent ∨ d = c ∧ syn ∈ out := by
      intro d syn hsyn
      rcases List.mem_append.mp hsyn with hold | hnew
      · exact .inl hold
      · obtain ⟨syn', hsyn', heq⟩ := List.mem_map.mp hnew
        cases heq
        exact .inr ⟨rfl, hsyn'⟩
    obtain ⟨c', hrecord', hlinks⟩ := NtmManager.handleMsgNtsConnect_links hhandle
    rw [hrecord] at hrecord'
    cases hrecord'
    rcases hlinks with ⟨hsame, hsyns⟩ | ⟨hclosed, conn, hip, hopened, hsyns⟩
    · refine h.of_sameLinks hsame fun d syn hsyn => (hsent d syn hsyn).imp_right ?_
      rintro ⟨rfl, hout⟩
      obtain ⟨conn, hconn, hdst⟩ := hsyns syn hout
      exact ⟨conn, hcached conn hconn, hdst.symm⟩
    · refine h.opened hclosed hopened (fun syn hsyn => (hearlier syn hsyn).trans hip.symm) ?_
      exact fun d syn hsyn => (hsent d syn hsyn).imp_right fun hnew => ⟨hnew.1, hsyns syn hnew.2⟩

theorem Inv.reply {ntmConn : NtmConn} (h : s.Inv) (hkeeps : s.KeepsLink (.reply ntmConn msg))
    (hstep : s.step shmAccept (.reply ntmConn msg) = some s') : s'.Inv := by
  simp only [step] at hstep
  split at hstep
  case isTrue hanswers =>
    obtain ⟨⟨host, out⟩, hhandle, rfl⟩ := Option.map_eq_some_iff.mp hstep
    have hreply : isReply msg.type = true := (Bool.and_eq_true_iff.mp hanswers).1
    cases htype : msg.type with
    | ntSynAck =>
      simp only [Host.ntmSockHandleMsg, htype] at hhandle
      rcases Host.handleNtSynAckMsg_cases hhandle with ⟨-, rfl, -⟩ | ⟨i, _, hport, -, hentered, -⟩
      · exact h
      · exact h.established hentered rfl fun c hc => hkeeps i c hport hc
    | ntInvalidPort | ntListenerNotFound | ntListenerNotReady | ntBacklogIsFull =>
      simp only [Host.ntmSockHandleMsg, htype] at hhandle
      cases hhandle
      exact h
    | _ =>
      rw [htype] at hreply
      cases hreply
  · cases hstep

theorem Inv.step {a : Act} (h : s.Inv) (hkeeps : s.KeepsLink a)
    (hstep : s.step shmAccept a = some s') : s'.Inv := by
  cases a with
  | connect tcp uninitialised msg => exact h.connect hkeeps hstep
  | reply ntmConn msg => exact h.reply hkeeps hstep

structure Start (s : ConnectingMonitor) : Prop where
  keyed : Keyed s.host.ntm
  noConn : ∀ ip, s.host.ntm.connMap ip = none
  noSyn : s.sent = []
  unconnected : ∀ id c, s.host.ntm.ntsShmConnMap id = some c →
    (s.host.ntm.socket (s.host.ntm.shmConns c).socket).state ≠ .established

theorem Start.inv (h : s.Start) : s.Inv where
  keyed := h.keyed
  cached := by
    intro ip conn hconn
    rw [h.noConn] at hconn
    cases hconn
  sent := by
    intro c syn hsyn
    rw [h.noSyn] at hsyn
    cases hsyn
  linked := fun id c hc hstate => absurd hstate (h.unconnected id c hc)

theorem handleMsgNtsFin_sends {mgr : NtmManager} {msg : NtmMsg} (hid : msg.msgId ≠ 0)
    (hpos : 0 < msg.sockid) (hrecord : mgr.ntsShmConnMap msg.sockid = some c)
    (hstate : (mgr.socket (mgr.shmConns c).socket).state = .established)
    (hconn : (mgr.shmConns c).ntmConn = some conn) (hsends : tcp.sends = true) :
    ∃ fin, (mgr.handleMsgNtsFin tcp msg).2 = [fin] ∧ fin.type = .ntFinAck ∧
      fin.dstAddr = (mgr.shmConns c).peerSinAddr := by
  have hkeep : ∀ i state, (mgr.setState i state).shmConns = mgr.shmConns := fun _ _ => rfl
  rw [NtmManager.handleMsgNtsFin, if_neg (by omega)]
  simp only [hrecord, hstate, ne_eq, not_true, if_false, hkeep, hconn, Option.some_or, hsends,
    if_true]
  exact ⟨_, rfl, rfl, rfl⟩

/-- In a run that keeps its links, every established socket has the connection to the monitor of
its peer, and its end can be reported. -/
theorem established_linked {as : List Act} (hstart : s.Start)
    (halong : Runs.Along (ConnectingMonitor.step shmAccept) KeepsLink s as)
    (hrun : Runs.run (ConnectingMonitor.step shmAccept) s as = some s') (id : ℤ) (c : ℕ)
    (hrecord : s'.host.ntm.ntsShmConnMap id = some c)
    (hstate : (s'.host.ntm.socket (s'.host.ntm.shmConns c).socket).state = .established) :
    (∃ conn, (s'.host.ntm.shmConns c).ntmConn = some conn ∧
        conn.ip = (s'.host.ntm.shmConns c).peerSinAddr) ∧
      ∀ tcp msg, tcp.sends = true → msg.msgId ≠ 0 → msg.sockid = id →
        ∃ fin, (s'.host.ntm.handleMsgNtsFin tcp msg).2 = [fin] ∧ fin.type = .ntFinAck ∧
          fin.dstAddr = (s'.host.ntm.shmConns c).peerSinAddr := by
  have hinv : s'.Inv :=
    Runs.invariant_of_along (fun _ _ _ h hkeeps hstep => h.step hkeeps hstep) hstart.inv halong hrun
  obtain ⟨conn, hconn, hip⟩ := hinv.linked id c hrecord hstate
  refine ⟨⟨conn, hconn, hip⟩, ?_⟩
  rintro tcp msg hsends hid rfl
  have hkey := hinv.keyed _ c hrecord
  have hpos : 0 < msg.sockid := by
    rw [hkey, NtSockContext.sockid]
    omega
  exact handleMsgNtsFin_sends hid hpos hrecord hstate hconn hsends

section Sample

def twoClients : NtmManager :=
  { sampleManager samplePorts with
    ntSockCtx :=
      { (sampleManager samplePorts).ntSockCtx with
        ntsock := fun _ =>
          { socktype := 2, opts := 0, state := .closed, saddr := .zero, epoll := 0 } } }

def sampleStart : ConnectingMonitor where
  host := { ntm := twoClients, ntp := sampleLink }
  sent := []

def secondRequest (address : UInt32) : NtmMsg :=
  { sampleRequest with sockid := 2, address := address }

def sampleSynAck (address : UInt32) (dport : UInt16) : NtmSockMsg where
  srcAddr := address
  dstAddr := 0
  sport := 1280
  dport := dport
  sockid := 9
  type := .ntSynAck
  partitionId := 0

def sampleActs (address : UInt32) : List Act :=
  [.connect sampleTcp none sampleRequest, .connect sampleTcp none (secondRequest address),
    .reply { ip := 7, clientSock := 3 } (sampleSynAck 7 0),
    .reply { ip := address, clientSock := 3 } (sampleSynAck address 256)]

/-- Two sockets are connected to one host; the end of the second is never reported. -/
theorem second_socket_unlinked :
    ∃ s, Runs.run (ConnectingMonitor.step fun _ => true) sampleStart (sampleActs 7) = some s ∧
      s.host.ntm.ntsShmConnMap 2 = some 1 ∧
      (s.host.ntm.socket (s.host.ntm.shmConns 1).socket).state = .established ∧
      (s.host.ntm.shmConns 1).ntmConn = none ∧
      (s.host.ntm.handleMsgNtsFin sampleTcp
        { msgId := 1, sockid := 2, addrlen := 0, port := 0, address := 0 }).2 = [] :=
  ⟨_, rfl, rfl, rfl, rfl, rfl⟩

theorem sampleStart_start : sampleStart.Start where
  keyed := by
    intro id c hc
    simp only [sampleStart, twoClients, sampleManager] at hc
    split at hc
    · cases hc
      assumption
    · split at hc
      · cases hc
        assumption
      · cases hc
  noConn := fun _ => rfl
  noSyn := rfl
  unconnected := by
    intro id c hc hstate
    cases hstate

theorem sampleActs_keepsLink :
    Runs.Along (ConnectingMonitor.step fun _ => true) KeepsLink sampleStart (sampleActs 9) := by
  rw [sampleActs, Runs.along_cons_iff rfl, Runs.along_cons_iff rfl, Runs.along_cons_iff rfl,
    Runs.along_cons_iff rfl]
  refine ⟨?_, ?_, ?_, ?_, trivial⟩
  · intro c hc
    cases hc
    refine ⟨fun conn hconn => ?_, fun syn hsyn => ?_⟩
    · cases hconn
    · cases hsyn
  · intro c hc
    cases hc
    refine ⟨fun conn hconn => ?_, fun syn hsyn => ?_⟩
    · cases hconn
    · cases List.mem_singleton.mp hsyn
  · intro i c hi hc
    cases hi
    cases hc
    exact ⟨_, List.mem_cons_self, rfl⟩
  · intro i c hi hc
    cases hi
    cases hc
    exact ⟨_, List.mem_cons_of_mem _ List.mem_cons_self, rfl⟩

theorem second_socket_linked :
    ∃ s, Runs.run (ConnectingMonitor.step fun _ => true) sampleStart (sampleActs 9) = some s ∧
      ∃ conn, (s.host.ntm.shmConns 1).ntmConn = some conn ∧
        conn.ip = (s.host.ntm.shmConns 1).peerSinAddr :=
  ⟨_, rfl, (established_linked sampleStart_start sampleActs_keepsLink rfl 2 1 rfl rfl).1⟩

end Sample

end ConnectingMonitor

end NtSocks.Ntm
