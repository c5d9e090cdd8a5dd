import PollKeeper.Time.OffsetHistory

/-!
# Offsets of zones in America
-/

namespace PollKeeper.Time.ZoneOffsets

open OffsetHistory

def newYork : OffsetHistory where
  first := -17762
  changes :=
    alternating (-18000) (-14400)
      [-2717650800, -1633280400, -1615140000, -1601830800, -1583690400, -1570381200, -1551636000,
       -1536512400, -1523210400, -1504458000, -1491760800, -1473008400, -1459706400, -1441558800,
       -1428256800, -1410109200, -1396807200, -1378659600, -1365357600, -1347210000, -1333908000,
       -1315155600, -1301853600, -1283706000, -1270404000, -1252256400, -1238954400, -1220806800,
       -1207504800, -1189357200, -1176055200, -1157302800, -1144605600, -1125853200, -1112551200,
       -1094403600, -1081101600, -1062954000, -1049652000, -1031504400, -1018202400, -1000054800,
       -986752800, -968000400, -955303200, -936550800, -923248800, -905101200, -891799200,
       -880218000, -765396000, -747248400, -733946400, -715798800, -702496800, -684349200,
       -671047200, -652899600, -639597600, -620845200, -608148000, -589395600, -576093600,
       -557946000, -544644000, -526496400, -513194400, -495046800, -481744800, -463597200,
       -447271200, -431542800, -415821600, -400093200, -384372000, -368643600, -352922400,
       -337194000, -321472800, -305744400, -289418400, -273690000, -257968800, -242240400,
       -226519200, -210790800, -195069600, -179341200, -163620000, -147891600, -131565600,
       -116442000, -100116000, -84387600, -68666400, -52938000, -37216800, -21488400, -5767200,
       9961200, 25682400, 41410800, 57736800, 73465200, 89186400, 104914800, 120636000,
       126687600, 152085600, 162370800, 183535200, 199263600, 215589600, 230713200, 247039200,
       262767600, 278488800, 294217200, 309938400, 325666800, 341388000, 357116400, 372837600,
       388566000, 404892000, 420015600, 436341600, 452070000, 467791200, 483519600, 499240800,
       514969200, 530690400, 544604400, 562140000, 576054000, 594194400, 607503600, 625644000,
       638953200, 657093600, 671007600, 688543200, 702457200, 719992800, 733906800, 752047200,
       765356400, 783496800, 796806000, 814946400, 828860400, 846396000, 860310000, 877845600,
       891759600, 909295200, 923209200, 941349600, 954658800, 972799200, 986108400, 1004248800,
       1018162800, 1035698400, 1049612400, 1067148000, 1081062000, 1099202400, 1112511600,
       1130652000, 1143961200, 1162101600, 1173596400, 1194156000, 1205046000, 1225605600,
       1236495600, 1257055200, 1268550000, 1289109600, 1299999600, 1320559200, 1331449200,
       1352008800, 1362898800, 1383458400, 1394348400, 1414908000, 1425798000, 1446357600,
       1457852400, 1478412000, 1489302000, 1509861600, 1520751600, 1541311200, 1552201200,
       1572760800, 1583650800, 1604210400, 1615705200, 1636264800, 1647154800, 1667714400,
       1678604400, 1699164000, 1710054000, 1730613600, 1741503600, 1762063200, 1772953200,
       1793512800, 1805007600, 1825567200, 1836457200, 1857016800, 1867906800, 1888466400,
       1899356400, 1919916000, 1930806000, 1951365600, 1962860400, 1983420000, 1994310000,
       2014869600, 2025759600, 2046319200, 2057209200, 2077768800, 2088658800, 2109218400,
       2120108400, 2140668000, 2152162800, 2172722400, 2183612400, 2204172000, 2215062000,
       2235621600, 2246511600, 2267071200, 2277961200, 2298520800, 2309410800, 2329970400,
       2341465200, 2362024800, 2372914800, 2393474400, 2404364400, 2424924000, 2435814000,
       2456373600, 2467263600, 2487823200, 2499318000, 2519877600, 2530767600, 2551327200,
       2562217200, 2582776800, 2593666800, 2614226400, 2625116400, 2645676000, 2656566000,
       2677125600, 2688620400, 2709180000, 2720070000, 2740629600, 2751519600, 2772079200,
       2782969200, 2803528800, 2814418800, 2834978400, 2846473200, 2867032800, 2877922800,
       2898482400, 2909372400, 2929932000, 2940822000, 2961381600, 2972271600, 2992831200,
       3003721200, 3024280800, 3035775600, 3056335200, 3067225200, 3087784800, 3098674800,
       3119234400, 3130124400, 3150684000, 3161574000, 3182133600, 3193023600, 3213583200,
       3225078000, 3245637600, 3256527600, 3277087200, 3287977200, 3308536800, 3319426800,
       3339986400, 3350876400, 3371436000, 3382930800, 3403490400, 3414380400, 3434940000,
       3445830000, 3466389600, 3477279600, 3497839200, 3508729200, 3529288800, 3540178800,
       3560738400, 3572233200, 3592792800, 3603682800, 3624242400, 3635132400, 3655692000,
       3666582000, 3687141600, 3698031600, 3718591200, 3730086000, 3750645600, 3761535600,
       3782095200, 3792985200, 3813544800, 3824434800, 3844994400, 3855884400, 3876444000,
       3887334000, 3907893600, 3919388400, 3939948000, 3950838000, 3971397600, 3982287600,
       4002847200, 4013737200, 4034296800, 4045186800, 4065746400, 4076636400, 4097196000]

def stJohns : OffsetHistory where
  first := -12652
  changes :=
    alternating (-9052) (-12652)
      [-1664130548, -1650137348, -1632076148, -1615145348, -1598650148, -1590100148, -1567286948,
       -1551565748, -1535837348, -1520116148, -1503782948, -1488666548, -1472333348, -1457216948,
       -1440883748, -1425767348, -1409434148, -1394317748, -1377984548, -1362263348, -1346534948,
       -1330813748, -1314480548, -1299364148, -1283030948, -1267914548, -1251581348, -1236464948,
       -1220131748, -1205015348, -1188682148, -1172960948, -1156627748, -1141511348, -1125178148,
       -1110061748] ++
    alternating (-12600) (-9000)
      [-1096921748, -1093728600, -1078612200, -1061670600, -1048973400, -1030221000, -1017523800,
       -998771400, -986074200, -966717000, -954624600, -935267400, -922570200, -903817800,
       -891120600, -872368200, -765401400, -746044200, -733347000, -714594600, -701897400,
       -683145000, -670447800, -651695400, -638998200, -619641000, -606943800, -589401000,
       -576099000, -557951400, -544649400, -526501800, -513199800, -495052200, -481750200,
       -463602600, -450300600, -431548200, -418246200, -400098600, -386796600, -368649000,
       -355347000, -337199400, -323897400, -305749800, -289423800, -273695400, -257974200,
       -242245800, -226524600, -210796200, -195075000, -179346600, -163625400, -147897000,
       -131571000, -116447400, -100121400, -84393000, -68671800, -52943400, -37222200, -21493800,
       -5772600, 9955800, 25677000, 41405400, 57731400, 73459800, 89181000, 104909400, 120630600,
       136359000, 152080200, 167808600, 183529800, 199258200, 215584200, 230707800, 247033800,
       262762200, 278483400, 294211800, 309933000, 325661400, 341382600, 357111000, 372832200,
       388560600, 404886600, 420010200, 436336200, 452064600, 467785800, 483514200, 499235400,
       514963800, 530685000, 544591860, 562127460] ++
    alternating (-5400) (-12600) [576041460, 594178260] ++
    alternating (-9000) (-12600)
      [607491060, 625631460, 638940660, 657081060, 670995060, 688530660, 702444660, 719980260,
       733894260, 752034660, 765343860, 783484260, 796793460, 814933860, 828847860, 846383460,
       860297460, 877833060, 891747060, 909282660, 923196660, 941337060, 954646260, 972786660,
       986095860, 1004236260, 1018150260, 1035685860, 1049599860, 1067135460, 1081049460,
       1099189860, 1112499060, 1130639460, 1143948660, 1162089060, 1173583860, 1194143460,
       1205033460, 1225593060, 1236483060, 1257042660, 1268537460, 1289097060, 1299987060,
       1320553800, 1331443800, 1352003400, 1362893400, 1383453000, 1394343000, 1414902600,
       1425792600, 1446352200, 1457847000, 1478406600, 1489296600, 1509856200, 1520746200,
       1541305800, 1552195800, 1572755400, 1583645400, 1604205000, 1615699800, 1636259400,
       1647149400, 1667709000, 1678599000, 1699158600, 1710048600, 1730608200, 1741498200,
       1762057800, 1772947800, 1793507400, 1805002200, 1825561800, 1836451800, 1857011400,
       1867901400, 1888461000, 1899351000, 1919910600, 1930800600, 1951360200, 1962855000,
       1983414600, 1994304600, 2014864200, 2025754200, 2046313800, 2057203800, 2077763400,
       2088653400, 2109213000, 2120103000, 2140662600, 2152157400, 2172717000, 2183607000,
       2204166600, 2215056600, 2235616200, 2246506200, 2267065800, 2277955800, 2298515400,
       2309405400, 2329965000, 2341459800, 2362019400, 2372909400, 2393469000, 2404359000,
       2424918600, 2435808600, 2456368200, 2467258200, 2487817800, 2499312600, 2519872200,
       2530762200, 2551321800, 2562211800, 2582771400, 2593661400, 2614221000, 2625111000,
       2645670600, 2656560600, 2677120200, 2688615000, 2709174600, 2720064600, 2740624200,
       2751514200, 2772073800, 2782963800, 2803523400, 2814413400, 2834973000, 2846467800,
       2867027400, 2877917400, 2898477000, 2909367000, 2929926600, 2940816600, 2961376200,
       2972266200, 2992825800, 3003715800, 3024275400, 3035770200, 3056329800, 3067219800,
       3087779400, 3098669400, 3119229000, 3130119000, 3150678600, 3161568600, 3182128200,
       3193018200, 3213577800, 3225072600, 3245632200, 3256522200, 3277081800, 3287971800,
       3308531400, 3319421400, 3339981000, 3350871000, 3371430600, 3382925400, 3403485000,
       3414375000, 3434934600, 3445824600, 3466384200, 3477274200, 3497833800, 3508723800,
       3529283400, 3540173400, 3560733000, 3572227800, 3592787400, 3603677400, 3624237000,
       3635127000, 3655686600, 3666576600, 3687136200, 3698026200, 3718585800, 3730080600,
       3750640200, 3761530200, 3782089800, 3792979800, 3813539400, 3824429400, 3844989000,
       3855879000, 3876438600, 3887328600, 3907888200, 3919383000, 3939942600, 3950832600,
       3971392200, 3982282200, 4002841800, 4013731800, 4034291400, 4045181400, 4065741000,
       4076631000, 4097190600]

def saoPaulo : OffsetHistory where
  first := -11188
  changes :=
    alternating (-10800) (-7200)
      [-1767214412, -1206957600, -1191362400, -1175374800, -1159826400, -633819600, -622069200,
       -602283600, -591832800, -570747600, -560210400, -539125200, -531352800, -195426000,
       -184197600, -155163600, -150069600, -128898000, -121125600, -99954000, -89589600,
       -68418000, -57967200, 499748400, 511236000, 530593200, 540266400, 562129200, 571197600,
       592974000, 602042400, 624423600, 634701600, 656478000, 666756000, 687927600, 697600800,
       719982000, 728445600, 750826800, 761709600, 782276400, 793159200, 813726000, 824004000,
       844570800, 856058400, 876106800, 888717600, 908074800, 919562400, 938919600, 951616800,
       970974000, 982461600, 1003028400, 1013911200, 1036292400, 1045360800, 1066532400,
       1076810400, 1099364400, 1108864800, 1129431600, 1140314400, 1162695600, 1172368800,
       1192330800, 1203213600, 1224385200, 1234663200, 1255834800, 1266717600, 1287284400,
       1298167200, 1318734000, 1330221600, 1350788400, 1361066400, 1382238000, 1392516000,
       1413687600, 1424570400, 1445137200, 1456020000, 1476586800, 1487469600, 1508036400,
       1518919200, 1541300400, 1550368800]

def caracas : OffsetHistory where
  first := -16064
  changes :=
    alternating (-16060) (-16200) [-2524505536, -1826739140] ++
    alternating (-14400) (-16200) [-157750200, 1197183600, 1462086000]

end PollKeeper.Time.ZoneOffsets
