import Askozia.Ajaxcgi.Commands
import Askozia.Ajaxcgi.DecodeUrl
import Askozia.Asterisk.Calls
import Askozia.Asterisk.Dialplan
import Askozia.Asterisk.Options
import Askozia.Asterisk.Priorities
import Askozia.Asterisk.Sections
import Askozia.Bits.Prefixes
import Askozia.Bytes.Memory
import Askozia.Calendar.Moments
import Askozia.Concurrent.CriticalSection
import Askozia.Concurrent.ReadModifyWrite
import Askozia.Config.Complete
import Askozia.Config.Convert
import Askozia.Config.Elements
import Askozia.Config.Freshness
import Askozia.Config.Lock
import Askozia.Config.Migration
import Askozia.Config.Processes
import Askozia.Config.Requests
import Askozia.Config.Saving
import Askozia.Config.Store
import Askozia.Config.UniqidIndex
import Askozia.Cyclic.Buffer
import Askozia.Dahdi.Autoconfigure
import Askozia.Dahdi.Chan
import Askozia.Dahdi.Contexts
import Askozia.Dahdi.DialGroups
import Askozia.Dahdi.GroupNumbers
import Askozia.Dahdi.Phones
import Askozia.Dahdi.Reboot
import Askozia.Dahdi.Redfone
import Askozia.Dahdi.Scan
import Askozia.Dahdi.Snapshots
import Askozia.Dahdi.System
import Askozia.Dahdi.Trunks
import Askozia.Dialplan.Applications
import Askozia.Dialplan.Arrivals
import Askozia.Dialplan.CallerId
import Askozia.Dialplan.Coherence
import Askozia.Dialplan.Conf
import Askozia.Dialplan.ConfText
import Askozia.Dialplan.Contexts
import Askozia.Dialplan.Extensions
import Askozia.Dialplan.Failover
import Askozia.Dialplan.FailoverRuns
import Askozia.Dialplan.Incoming
import Askozia.Dialplan.Joined
import Askozia.Dialplan.Jumps
import Askozia.Dialplan.Lines
import Askozia.Dialplan.Lists
import Askozia.Dialplan.Lookup
import Askozia.Dialplan.PatternGrammar
import Askozia.Dialplan.Patterns
import Askozia.Dialplan.Priorities
import Askozia.Dialplan.Readback
import Askozia.Dialplan.Reading
import Askozia.Dialplan.SharedHosts
import Askozia.Dialplan.Steps
import Askozia.Firmware.Sign
import Askozia.Firmware.Upgrade
import Askozia.Firmware.VerifySig
import Askozia.Iax.Conf
import Askozia.Network.Subnets
import Askozia.Pbx.Accounts
import Askozia.Pbx.Base64
import Askozia.Pbx.Delete
import Askozia.Pbx.Editing
import Askozia.Pbx.Enabling
import Askozia.Pbx.Forms
import Askozia.Pbx.Manager
import Askozia.Pbx.Names
import Askozia.Pbx.PinChange
import Askozia.Pbx.References
import Askozia.Pbx.Saving
import Askozia.Pbx.Verify
import Askozia.Php.Chars
import Askozia.Php.Compare
import Askozia.Php.Edits
import Askozia.Php.Lacks
import Askozia.Php.Loops
import Askozia.Php.ParseStr
import Askozia.Php.Search
import Askozia.Php.Text
import Askozia.Php.Value
import Askozia.Sip.Conf
import Askozia.Sip.Contexts
import Askozia.Sip.Editing
import Askozia.Sip.Phones
import Askozia.Sip.Stored
import Askozia.Sip.Validation
import Askozia.Sip.Verify
import Askozia.Stdio.Streams
import Askozia.Storage.Disks
import Askozia.Text.Brackets
import Askozia.Text.Substitution
import Askozia.Util.ConfLines
import Askozia.Util.ManualFiles
import Askozia.Wakeme.Menu
import Askozia.Wakeme.SetWakeup
import Askozia.Www.Deletions
import Askozia.Www.ExtensionRuns
import Askozia.Www.Extensions
import Askozia.Www.Lists
import Askozia.Www.Positions
import Askozia.Xml.Document
import Askozia.Xml.Pieces
import Askozia.Xml.Scanner
import Askozia.XmlParse.Booleans
import Askozia.XmlParse.Canonical
import Askozia.XmlParse.Compact
import Askozia.XmlParse.Edited
import Askozia.XmlParse.Lacks
import Askozia.XmlParse.LineEnds
import Askozia.XmlParse.Loadable
import Askozia.XmlParse.Normal
import Askozia.XmlParse.ReadBack
import Askozia.XmlParse.Reader
import Askozia.XmlParse.ReaderTheorems
import Askozia.XmlParse.Reread
import Askozia.XmlParse.RoundTrip
import Askozia.XmlParse.Writer
import Askozia.Zaphfc.Fifo
import Askozia.Zaphfc.Frames
import Askozia.Zaphfc.Voice
