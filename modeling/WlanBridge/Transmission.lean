import WlanBridge.Emission
import WlanBridge.Resend

/-! What the kernel accepts is part of what is handed over, in the same order and
each datagram once, under every outcome of the send calls. -/
namespace WlanBridge

/-- From `u` to `v` only calls were added, and they transmitted no more than they attempted. -/
def Udp.Grows (u v : Udp) : Prop :=
  ∃ events, v.trace = u.trace ++ events ∧ (transmitted events).Sublist (attempted events)

theorem Udp.Grows.refl (u : Udp) : u.Grows u := ⟨[], by simp, List.Sublist.refl _⟩

theorem Udp.Grows.trans {u v w : Udp} (first : u.Grows v) (second : v.Grows w) : u.Grows w := by
  obtain ⟨earlier, here, part⟩ := first
  obtain ⟨later, there, also⟩ := second
  refine ⟨earlier ++ later, by rw [there, here, List.append_assoc], ?_⟩
  rw [transmitted_append, attempted_append]
  exact part.append also

theorem foldl_grows {f : Server → α → Server} (each : ∀ (s : Server) (a : α), s.udp.Grows (f s a).udp)
    (l : List α) (s : Server) :
    s.udp.Grows (l.foldl f s).udp := by
  induction l generalizing s with
  | nil => exact .refl _
  | cons a rest ih => exact (each s a).trans (ih _)

theorem sendDataToUdpClient_grows (k : Kernel) (u : Udp) (len : Nat) (buf : Buf) (peerAddr : SockaddrIn) :
    u.Grows (sendDataToUdpClient k u len buf peerAddr).2 := by
  simp only [sendDataToUdpClient, sendto]
  cases k.sendto u.calls (buf.datagram len peerAddr) with
  | none => exact ⟨[.sendto (buf.datagram len peerAddr) true], rfl, List.Sublist.refl _⟩
  | some errno => exact ⟨[.sendto (buf.datagram len peerAddr) false], rfl, List.nil_sublist _⟩

theorem sendmmsg_prefix (k : Kernel) (u : Udp) (mmsg : List Mmsghdr) :
    ∃ done, (sendmmsg k u mmsg).2.2.trace = u.trace ++ [.sendmmsg (mmsg.map Mmsghdr.datagram) done] ∧
      (sendmmsg k u mmsg).2.1 = (mmsg.take done).map Mmsghdr.sent ++ mmsg.drop done := by
  rw [sendmmsg_eq]
  exact ⟨_, rfl, rfl⟩

/-- Marked headers are not sent again, so a resend goes behind what was sent. -/
theorem resend_sublist (mmsg : List Mmsghdr) (done : Nat) :
    (((mmsg.take done).map Mmsghdr.sent ++ mmsg.drop done).filter (fun m => m.msgLen ≠ m.iovLen)).Sublist
      (mmsg.drop done) := by
  rw [List.filter_append, sent_not_resent, List.nil_append]
  exact List.filter_sublist

theorem sendDataToUdpClientBurst_grows (k : Kernel) (u : Udp) (buf : List Buf) (dataLen : List Nat)
    (peerAddr : List SockaddrIn) (msgNum : Nat) :
    u.Grows (sendDataToUdpClientBurst k u buf dataLen peerAddr msgNum).2 := by
  simp only [sendDataToUdpClientBurst]
  generalize mmsgOf buf dataLen peerAddr msgNum = mmsg
  generalize entered : u.record (.burst (mmsg.map Mmsghdr.datagram)) = v
  obtain ⟨done, traced, marked⟩ := sendmmsg_prefix k v mmsg
  have left := resend_sublist mmsg done
  rw [← marked] at left
  generalize sendmmsg k v mmsg = r at traced left ⊢
  obtain ⟨retval, headers, w⟩ := r
  simp only at traced left ⊢
  rw [← entered, Udp.record] at traced
  have once : u.Grows w := by
    refine ⟨[.burst (mmsg.map Mmsghdr.datagram), .sendmmsg (mmsg.map Mmsghdr.datagram) done], by simp [traced], ?_⟩
    simpa [transmitted, attempted, UdpEvent.transmitted, UdpEvent.attempted] using
      List.take_sublist done (mmsg.map Mmsghdr.datagram)
  have twice : u.Grows (sendmmsg k w (headers.filter fun m => m.msgLen ≠ m.iovLen)).2.2 := by
    generalize headers.filter (fun m => m.msgLen ≠ m.iovLen) = again at left ⊢
    obtain ⟨more, tracedMore, _⟩ := sendmmsg_prefix k w again
    refine ⟨[.burst (mmsg.map Mmsghdr.datagram), .sendmmsg (mmsg.map Mmsghdr.datagram) done,
      .sendmmsg (again.map Mmsghdr.datagram) more], by simp [tracedMore, traced], ?_⟩
    have behind : ((again.map Mmsghdr.datagram).take more).Sublist ((mmsg.map Mmsghdr.datagram).drop done) := by
      rw [← List.map_drop]
      exact (List.take_sublist more _).trans (left.map _)
    have whole := (List.Sublist.refl ((mmsg.map Mmsghdr.datagram).take done)).append behind
    rw [List.take_append_drop] at whole
    simpa [transmitted, attempted, UdpEvent.transmitted, UdpEvent.attempted] using whole
  split_ifs
  · exact twice
  · exact twice
  · exact once
  · exact once
  · exact once

theorem floodSend_grows (env : Env) (len : Nat) (buf : Buf) (s : Server) (addr : SockaddrIn) :
    s.udp.Grows (floodSend env len buf s addr).udp := by
  simp only [floodSend]
  split <;> exact sendDataToUdpClient_grows ..

theorem floodEntry_grows (env : Env) (len : Nat) (buf : Buf) (currAddr : SockaddrIn) (s : Server)
    (entry : WlanListEntry) : s.udp.Grows (floodEntry env len buf currAddr s entry).udp := by
  unfold floodEntry
  split
  · exact .refl _
  · dsimp only
    split
    · exact .refl _
    · exact floodSend_grows env len buf { s with bridge := _ } _

theorem clearEntry_grows (s : Server) (entry : WlanListEntry) : s.udp.Grows (clearEntry s entry).udp := by
  unfold clearEntry
  split <;> exact .refl _

theorem wlanBrFlood_grows (env : Env) (s : Server) (len : Nat) (buf : Buf) (currAddr : SockaddrIn) :
    s.udp.Grows (wlanBrFlood env s len buf currAddr).udp := by
  simp only [wlanBrFlood]
  generalize counted : ({ s with
    stats := wlanIpStaticUpdateRx env s.stats currAddr.sinAddr 1 (BitVec.ofNat 32 len) } : Server) = t
  have same : s.udp = t.udp := by rw [← counted]
  rw [same]
  exact (foldl_grows (floodEntry_grows env len buf currAddr) _ t).trans (foldl_grows clearEntry_grows _ _)

theorem burstBody_grows (env : Env) (l : BurstLocals) (slot : Slot) (i : Nat) :
    l.server.udp.Grows (burstBody env l slot i).server.udp := by
  rcases burstBody_cases env l slot i with ⟨_, turn⟩ | ⟨_, turn⟩ | ⟨_, _, _, turn⟩
  · rw [turn]
    exact wlanBrFlood_grows env { l.server with bridge := _ } _ _ _
  · rw [turn]
    exact .refl _
  · rw [turn]
    exact .refl _

theorem wlanBrHandleBurst_grows (env : Env) (s : Server) (slots : List Slot) :
    s.udp.Grows (wlanBrHandleBurst env s slots).udp := by
  have looped (l : BurstLocals) (cells : List (Slot × Nat)) :
      l.server.udp.Grows (cells.foldl (fun l a => burstBody env l a.1 a.2) l).server.udp := by
    induction cells generalizing l with
    | nil => exact .refl _
    | cons a rest ih => exact (burstBody_grows env l a.1 a.2).trans (ih _)
  have whole := looped (.start s slots.length) slots.zipIdx
  simp only [wlanBrHandleBurst]
  split
  · exact whole.trans (sendDataToUdpClientBurst_grows ..)
  · exact whole

theorem burst_transmitted (env : Env) (s : Server) (slots : List Slot) :
    (transmittedSince s.udp (wlanBrHandleBurst env s slots).udp).Sublist ((Call.burst slots).attempts env s) := by
  obtain ⟨events, traced, part⟩ := wlanBrHandleBurst_grows env s slots
  simp only [transmittedSince, Call.attempts, Call.run, traced, transmitted_append, attempted_append,
    List.drop_left]
  exact part

end WlanBridge
