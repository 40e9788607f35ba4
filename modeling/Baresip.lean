import Baresip.Ua.Menu
import Baresip.Call.FormatCycle
import Baresip.Library.RoundRobin
import Baresip.Re.Sa
import Baresip.Library.Runs
import Baresip.Video.Packetize
import Baresip.Video.Reassembly
import Baresip.Mnat.Establish
import Baresip.Srtp.Keying
import Baresip.Srtp.Transforms
import Baresip.Stream.InOrder
import Baresip.Call.Lifetimes
import Baresip.Ua.Useragents
import Baresip.Audio.Digits
import Baresip.Audio.Timestamps
import Baresip.Mnat.Conncheck
import Baresip.Rst.Rst
import Baresip.Ua.Csl
import Baresip.Sdp.Answer
import Baresip.Sdp.Refused
import Baresip.Call.Parts
import Baresip.Ua.Editor
import Baresip.Celt.Fmtp
import Baresip.Celt.Celt
import Baresip.Reg.Release
import Baresip.Sip.Absorption
import Baresip.Sess.Exclusion
import Baresip.Call.Engaged
import Baresip.Sip.Outcomes
import Baresip.Sip.Routes
import Baresip.Sip.Elements
import Baresip.Stream.Late
import Baresip.Stream.Delay
import Baresip.Dns.Names
import Baresip.Chk.Priorities
import Baresip.Chk.Components
import Baresip.Stun.Received
import Baresip.Dns.Records
import Baresip.Dns.Handled
import Baresip.Rtcp.Compound
import Baresip.Rtcp.RoundTrip
import Baresip.Rtcp.Header
import Baresip.Rtcp.Jitter
import Baresip.Rtcp.Losses
import Baresip.Rtcp.Members
import Baresip.Audio.Tape
import Baresip.Vpx.Descriptor
import Baresip.Sip.Counts
import Baresip.Sip.Credentials
import Baresip.Turn.Refreshes
import Baresip.Turn.Bindings
import Baresip.Turn.Handed
import Baresip.Tmr.Polls
import Baresip.Stun.Answers
import Baresip.Stun.Crc32
import Baresip.Tcp.Sendq
import Baresip.Call.Delivered
import Baresip.L16.L16
import Baresip.Ilbc.Ilbc
import Baresip.Stream.Losses
import Baresip.Re.Base64
import Baresip.Module.Module
import Baresip.Net.Nameservers
import Baresip.Player.Play
import Baresip.Reg.Waits
import Baresip.Sipevent.Subscribe
import Baresip.Presence.Subscriber
import Baresip.Dns.Rrlist
import Baresip.Stream.Duplicates
import Baresip.Chk.States
import Baresip.Chk.Icesdp
import Baresip.Chk.Redundant
import Baresip.Re.Reported
import Baresip.Re.Casecmp
import Baresip.Re.Printed
import Baresip.Re.Compared
import Baresip.Re.Uric
import Baresip.Re.UriEncode
import Baresip.Ua.Contact
import Baresip.Stun.RoundTrip
