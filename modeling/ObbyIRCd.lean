import ObbyIRCd.Buffers.Framing
import ObbyIRCd.History.RoundTrip
import ObbyIRCd.Crule.Accept
import ObbyIRCd.Match.Collapse
import ObbyIRCd.Reputation.Convergence
import ObbyIRCd.Reputation.Scores
import ObbyIRCd.Members.Run
import ObbyIRCd.Tkl.Sync
import ObbyIRCd.Recovery.Uniform
import ObbyIRCd.Recovery.Password
import ObbyIRCd.Sasl.TwoFactor
import ObbyIRCd.Persist.Sessions
import ObbyIRCd.Metadata.Sync
import ObbyIRCd.Persist.Reload
import ObbyIRCd.Multiline.Path
import ObbyIRCd.Tkl.Migrate
import ObbyIRCd.Chanmode.Lines
import ObbyIRCd.Channeldb.Migrate
import ObbyIRCd.History.Between
import ObbyIRCd.History.Around
import ObbyIRCd.PmHistory.Paging
import ObbyIRCd.Authtoken.Pieces
import ObbyIRCd.Mmdb.Lookup
import ObbyIRCd.Preprocessor.Phases
import ObbyIRCd.Preprocessor.Replace
import ObbyIRCd.Smtp.DotStuffing
import ObbyIRCd.Smtp.Starttls
import ObbyIRCd.Chanmode.TextFlood
import ObbyIRCd.Conf.Timeval
import ObbyIRCd.Tkl.Reason
import ObbyIRCd.History.Pages
import ObbyIRCd.Parse.Params
import ObbyIRCd.Tkl.Shun
import ObbyIRCd.NamedModes.Request
import ObbyIRCd.MemberRoles.Config
import ObbyIRCd.Database.Sticky
import ObbyIRCd.Sasl.Counter
import ObbyIRCd.Chanmode.Bans
import ObbyIRCd.Metadata.Storage
import ObbyIRCd.Metadata.Notify
import ObbyIRCd.Websocket.Packet
import ObbyIRCd.Sasl.Chunks
